import Sysbench.Database.BulkBatches

/-!
# Database/BulkCommits — the COMMITs of a bulk insert that meets no failure

Where the driver needs explicit commits, `bulk_commit_cnt` counts the rows of the INSERTs since the
last COMMIT, and a flush that brings it to `bulk_commit_max` commits.  A flush of no rows returns
early, the one of `db_bulk_insert_done` included; nothing is left uncommitted then, because each
accepted row leaves one pending (`CommitInv.pending`).
-/

namespace Sysbench.Database

variable {ρ : Type} {text : ρ → CStr} {q : CStr} {c c' : DbConn ρ} {sent : List (Sent ρ)}

/-- The rows inserted since the last COMMIT, `rows` of them before, when a query has been sent. -/
def afterQuery (rows : List ρ) (s : Sent ρ) : List ρ :=
  match s.query with
  | .insert _ new => if s.ok then rows ++ new else rows
  | .commit => if s.ok then [] else rows

/-- The rows of the INSERTs since the last COMMIT. -/
def uncommitted (sent : List (Sent ρ)) : List ρ := sent.foldl afterQuery []

/-- The query is an INSERT. -/
def Sent.isInsert (s : Sent ρ) : Bool :=
  match s.query with
  | .insert _ _ => true
  | .commit => false

/-- Each COMMIT comes right after an INSERT. -/
def CommitsFollowInserts (sent : List (Sent ρ)) : Prop :=
  ∀ before s after, sent = before ++ s :: after → s.isInsert = false →
    ∃ t ∈ before.getLast?, t.isInsert = true

/-- No COMMIT among the queries. -/
def NoCommit (sent : List (Sent ρ)) : Prop := ∀ s ∈ sent, s.isInsert = true

/-! ## The queries of a flush -/

/-- `bulk_commit_cnt` after a flush. -/
def commitCntAfter (isLast : Bool) (c : DbConn ρ) : ℕ :=
  if c.bulkCommitMax = 0 then c.bulkCommitCnt
  else if CommitDue isLast c then 0
  else toU32 (c.bulkCommitCnt + c.bulkCnt)

/-- The queries of a flush. -/
def flushed (q : CStr) (text : ρ → CStr) (isLast : Bool) (c : DbConn ρ) : List (Sent ρ) :=
  ⟨c.insert q text, true⟩ :: if CommitDue isLast c then [⟨.commit, true⟩] else []

theorem dbBulkDoInsert_flushed (h : BulkRep q text c) (hr : c.bulkRows ≠ []) (isLast : Bool) :
    dbBulkDoInsert isLast .allOk c = .ok (0,
      bulkReset { c with bulkCommitCnt := commitCntAfter isLast c }, flushed q text isLast c) := by
  obtain ⟨m, hm, -, hp⟩ := h.buffer
  have hquery : bulkQuery c = .ok (c.insert q text) := by
    simp only [bulkQuery, hm, DbConn.insert]
    rw [m.text_eq (hp hr) (zero_notMem_rowsText _ _)]
  have hd : ¬ c.driver.isNone := by simpa [← Option.isSome_iff_ne_none] using h.driver
  unfold dbBulkDoInsert
  rw [if_neg (mt h.cnt_eq_zero.mp hr), if_neg hd, hquery]
  simp only [bind, Except.bind, insertRetry, Replies.allOk, if_true, Bool.not_true,
    Bool.false_eq_true, if_false]
  unfold flushed commitCntAfter
  by_cases hmax : c.bulkCommitMax = 0
  · have hdue : ¬ CommitDue isLast c := fun hd => hd.1 hmax
    rw [if_neg (not_not.mpr hmax), if_pos hmax, if_neg hdue]
  · rw [if_pos hmax, if_neg hmax]
    by_cases hlast : isLast ∨ c.bulkCommitMax ≤ toU32 (c.bulkCommitCnt + c.bulkCnt)
    · have hdue : CommitDue isLast c := ⟨hmax, hlast⟩
      rw [if_pos hlast, if_pos hdue, if_pos hdue]
      rfl
    · have hdue : ¬ CommitDue isLast c := fun hd => hlast hd.2
      rw [if_neg hlast, if_neg hdue, if_neg hdue]

/-- A row put behind the text changes nothing about the commits. -/
theorem bulkAppend_commit {row : ρ} (h : bulkAppend text row c = .ok c') :
    c'.bulkCommitCnt = c.bulkCommitCnt ∧ c'.bulkCommitMax = c.bulkCommitMax := by
  unfold bulkAppend at h
  split at h
  case h_1 => cases h
  case h_2 m hm =>
    obtain ⟨m', -, h⟩ := except_bind_eq_ok.mp h
    obtain rfl := Except.ok.inj h
    exact ⟨rfl, rfl⟩

/-! ## What holds between the calls -/

/-- **The invariant**: with explicit commits `bulk_commit_cnt` is the rows since the last COMMIT,
and short of the limit; and once a query has been sent a row is pending. -/
structure CommitInv (max : ℕ) (sent : List (Sent ρ)) (c : DbConn ρ) : Prop where
  max_eq : c.bulkCommitMax = max
  cnt : max ≠ 0 → c.bulkCommitCnt = (uncommitted sent).length ∧ c.bulkCommitCnt < max
  follow : CommitsFollowInserts sent
  none : max = 0 → NoCommit sent
  pending : sent ≠ [] → c.bulkRows ≠ []

@[simp] theorem uncommitted_append (l l' : List (Sent ρ)) :
    uncommitted (l ++ l') = l'.foldl afterQuery (uncommitted l) := List.foldl_append

theorem commitsFollowInserts_concat {s : Sent ρ} :
    CommitsFollowInserts (sent ++ [s]) ↔ CommitsFollowInserts sent ∧
      (s.isInsert = false → ∃ t ∈ sent.getLast?, t.isInsert = true) := by
  constructor
  · intro h
    refine ⟨fun before x after hsent hx => ?_, h sent s [] rfl⟩
    exact h before x (after ++ [s]) (by simp [hsent]) hx
  · rintro ⟨h, hs⟩ before x after hsent hx
    rcases List.eq_nil_or_concat after with rfl | ⟨after', y, rfl⟩
    · obtain ⟨rfl, hlast⟩ := List.append_inj' hsent rfl
      obtain rfl := List.singleton_inj.mp hlast
      exact hs hx
    · rw [List.concat_eq_append, ← List.cons_append, ← List.append_assoc] at hsent
      obtain ⟨rfl, -⟩ := List.append_inj' hsent rfl
      exact h before x after' rfl hx

/-- A flush adds an INSERT, and a COMMIT only behind it. -/
theorem CommitsFollowInserts.flushed (h : CommitsFollowInserts sent) (isLast : Bool) :
    CommitsFollowInserts (sent ++ flushed q text isLast c) := by
  have hinsert : CommitsFollowInserts (sent ++ [⟨c.insert q text, true⟩]) :=
    commitsFollowInserts_concat.mpr ⟨h, nofun⟩
  unfold Database.flushed
  split
  · rw [List.append_cons]
    exact commitsFollowInserts_concat.mpr
      ⟨hinsert, fun _ => ⟨⟨c.insert q text, true⟩, by simp, rfl⟩⟩
  · exact hinsert

/-- The pending rows are few enough to be counted. -/
theorem BulkRep.commitCnt_add (h : BulkRep q text c) (hlt : c.bulkCommitCnt < 2 ^ 31) :
    toU32 (c.bulkCommitCnt + c.bulkCnt) = c.bulkCommitCnt + c.bulkRows.length := by
  have hlen := length_le_rowsText q (c.bulkRows.map text)
  have hfits := h.fits
  have hsize : bulkPacketSize = 524288 := rfl
  rw [List.length_map] at hlen
  rw [bulkText] at hfits
  rw [h.cnt]
  exact_mod_cast toU32_of_lt (n := c.bulkCommitCnt + c.bulkRows.length) (by omega)

/-- **A flush with explicit commits**: all is committed if it is the last one or the limit is
reached, and else the rows are counted. -/
theorem CommitInv.flush {max : ℕ} (hI : CommitInv max sent c) (h : BulkRep q text c)
    (isLast : Bool) (hmax : max ≠ 0) (hlt : max < 2 ^ 31) :
    commitCntAfter isLast c = (uncommitted (sent ++ flushed q text isLast c)).length ∧
      commitCntAfter isLast c < max ∧
      (isLast = true → uncommitted (sent ++ flushed q text isLast c) = []) := by
  obtain ⟨hcnt, hbelow⟩ := hI.cnt hmax
  have hadd := h.commitCnt_add (by omega)
  have hmax' : c.bulkCommitMax ≠ 0 := hI.max_eq ▸ hmax
  rw [commitCntAfter, if_neg hmax', flushed, uncommitted_append]
  by_cases hdue : CommitDue isLast c
  · rw [if_pos hdue, if_pos hdue]
    exact ⟨rfl, Nat.pos_of_ne_zero hmax, fun _ => rfl⟩
  · rw [if_neg hdue, if_neg hdue, hadd, hcnt]
    have hnot : ¬ (isLast ∨ c.bulkCommitMax ≤ c.bulkCommitCnt + c.bulkRows.length) := by
      rw [← hadd]
      exact fun hlast => hdue ⟨hmax', hlast⟩
    obtain ⟨hlast, hless⟩ := not_or.mp hnot
    rw [hI.max_eq] at hless
    refine ⟨?_, by omega, fun h => absurd h hlast⟩
    simp [afterQuery, DbConn.insert]

/-- Without explicit commits a flush is an INSERT. -/
theorem NoCommit.flushed (h : NoCommit sent) (hmax : c.bulkCommitMax = 0) (isLast : Bool) :
    NoCommit (sent ++ flushed q text isLast c) := by
  have hdue : ¬ CommitDue isLast c := fun hd => hd.1 hmax
  intro s hs
  rw [Database.flushed, if_neg hdue] at hs
  rcases List.mem_append.mp hs with hs | hs
  · exact h s hs
  · rw [List.mem_singleton.mp hs]
    rfl

/-- **One row.** -/
theorem CommitInv.next {max : ℕ} {row : ρ} (hI : CommitInv max sent c) (h : BulkRep q text c)
    (hrow : RowFits q text [] row) (hlt : max < 2 ^ 31) :
    ∃ c' new, dbBulkInsertNext text row .allOk c = .ok (0, c', new) ∧ BulkRep q text c' ∧
      CommitInv max (sent ++ new) c' := by
  have hlen : (text row).length < 2 ^ 31 := by
    have hfit := rowFits_nil.mp hrow
    have hsize : bulkPacketSize = 524288 := rfl
    omega
  by_cases hfits : RowFits q text c.bulkRows row
  · obtain ⟨c', ha, hrep, hrows⟩ := h.bulkAppend_ok hfits
    have hroom : ¬ bulkFull (text row) c := mt (h.bulkFull_iff hlen).mp (not_not.mpr hfits)
    obtain ⟨hcnt, hmax⟩ := bulkAppend_commit ha
    have hne : c'.bulkRows ≠ [] := by simp [hrows]
    refine ⟨c', [], by rw [dbBulkInsertNext, if_neg hroom, ha]; rfl, hrep, ?_⟩
    rw [List.append_nil]
    exact ⟨hmax.trans hI.max_eq, fun h => by rw [hcnt]; exact hI.cnt h, hI.follow, hI.none,
      fun _ => hne⟩
  · have hr : c.bulkRows ≠ [] := fun hr => hfits (hr ▸ hrow)
    obtain ⟨c', ha, hrep, hrows⟩ := (h.reset (commitCntAfter false c)).bulkAppend_ok hrow
    obtain ⟨hcnt, hmax⟩ := bulkAppend_commit ha
    have hne : c'.bulkRows ≠ [] := by simp [hrows]
    refine ⟨c', flushed q text false c, ?_, hrep, ?_⟩
    · rw [dbBulkInsertNext, if_pos ((h.bulkFull_iff hlen).mpr hfits),
        if_neg (mt h.cnt_eq_zero.mp hr)]
      simp [dbBulkDoInsert_flushed h hr, ha, bind, Except.bind]
    · refine ⟨hmax.trans hI.max_eq, fun hpos => ?_, hI.follow.flushed false, fun hzero => ?_,
        fun _ => hne⟩
      · obtain ⟨hk, hless, -⟩ := hI.flush h false hpos hlt
        rw [hcnt]
        exact ⟨hk, hless⟩
      · exact (hI.none hzero).flushed (hI.max_eq.trans hzero) false

/-- **All rows of a run, or of any beginning of it.** -/
theorem CommitInv.nexts {max : ℕ} {rows : List ρ} (hrows : ∀ row ∈ rows, RowFits q text [] row)
    (hlt : max < 2 ^ 31) : ∀ {c : DbConn ρ} {sent : List (Sent ρ)}, BulkRep q text c →
      CommitInv max sent c → ∃ c' new, bulkNexts text (fun _ => .allOk) rows c
        = .ok (List.replicate rows.length 0, c', new) ∧ BulkRep q text c' ∧
        CommitInv max (sent ++ new) c' := by
  induction rows with
  | nil => exact fun h hI => ⟨_, [], rfl, h, by rwa [List.append_nil]⟩
  | cons row rows ih =>
    intro c sent h hI
    rw [List.forall_mem_cons] at hrows
    obtain ⟨c₁, new₁, hnext, h₁, hI₁⟩ := hI.next h hrows.1 hlt
    obtain ⟨c', new, hnexts, h', hI'⟩ := ih hrows.2 h₁ hI₁
    refine ⟨c', new₁ ++ new, ?_, h', by rwa [← List.append_assoc]⟩
    simp [bulkNexts, hnext, hnexts, bind, Except.bind, List.replicate_succ]

/-! ## From beginning to end -/

/-- `db_bulk_insert_init` sets the limit of the driver. -/
theorem commit_of_init {mem : Option (Block bulkPacketSize)} {caps : DrvCaps}
    (hcaps : c.driver.bind DbDriver.describe = some caps)
    (h : dbBulkInsertInit q mem c = .ok (0, c')) :
    c'.bulkCommitMax = (if caps.needsCommit then rowsBeforeCommit else 0) ∧
      c'.bulkCommitCnt = 0 := by
  unfold dbBulkInsertInit at h
  rw [hcaps] at h
  dsimp only at h
  by_cases hlen : bulkPacketSize < q.length + 1
  · rw [if_pos hlen] at h
    cases h
  rw [if_neg hlen] at h
  split at h
  case h_1 => cases h
  case h_2 m =>
    obtain ⟨m', -, h⟩ := except_bind_eq_ok.mp h
    obtain rfl := (Prod.mk.inj (Except.ok.inj h)).2
    exact ⟨rfl, rfl⟩

/-- `db_bulk_insert_done` leaves nothing uncommitted. -/
theorem CommitInv.done {max : ℕ} (hI : CommitInv max sent c) (h : BulkRep q text c)
    (hlt : max < 2 ^ 31) :
    ∃ c' new, dbBulkInsertDone .allOk c = .ok (c', new) ∧ CommitsFollowInserts (sent ++ new) ∧
      (max ≠ 0 → uncommitted (sent ++ new) = []) ∧ (max = 0 → NoCommit (sent ++ new)) := by
  by_cases hr : c.bulkRows = []
  · -- nothing is pending, so nothing was ever sent
    obtain rfl : sent = [] := by
      by_contra hne
      exact hI.pending hne hr
    refine ⟨_, [], dbBulkInsertDone_of (dbBulkDoInsert_empty h hr true _), ?_, fun _ => rfl, ?_⟩
    · exact hI.follow
    · exact hI.none
  · refine ⟨_, _, dbBulkInsertDone_of (dbBulkDoInsert_flushed h hr true), hI.follow.flushed true,
      fun hmax => (hI.flush h true hmax hlt).2.2 rfl, fun hzero => ?_⟩
    exact (hI.none hzero).flushed (hI.max_eq.trans hzero) true

/-- **The COMMITs of a bulk insert.**  After each row `bulk_commit_cnt` is the number of rows
inserted since the last COMMIT, and below the limit; a COMMIT comes right after an INSERT, and at
the end nothing is uncommitted.  A driver without commits is sent none. -/
theorem bulkRun_commits (c c₀ : DbConn ρ) (caps : DrvCaps)
    (hcaps : c.driver.bind DbDriver.describe = some caps) (mem : Option (Block bulkPacketSize))
    (q : CStr) (hinit : dbBulkInsertInit q mem c = .ok (0, c₀)) (text : ρ → CStr) (rows : List ρ)
    (hrows : ∀ row ∈ rows, q.length + (text row).length + 1 ≤ bulkPacketSize) :
    (∀ pre, pre <+: rows → ∃ c' sent, bulkNexts text (fun _ => .allOk) pre c₀
        = .ok (List.replicate pre.length 0, c', sent) ∧
      (caps.needsCommit = true → c'.bulkCommitMax = rowsBeforeCommit ∧
        c'.bulkCommitCnt = (uncommitted sent).length ∧ c'.bulkCommitCnt < c'.bulkCommitMax)) ∧
    ∃ run, bulkRun text (fun _ => .allOk) .allOk q mem rows c = .ok run ∧
      CommitsFollowInserts run.sent ∧ (caps.needsCommit = true → uncommitted run.sent = []) ∧
      (caps.needsCommit = false → NoCommit run.sent) := by
  obtain ⟨hrep, hempty⟩ : BulkRep q text c₀ ∧ c₀.bulkRows = [] := bulkRep_of_init hinit
  obtain ⟨hmax, hcnt⟩ := commit_of_init hcaps hinit
  have hfit : ∀ row ∈ rows, RowFits q text [] row :=
    fun row hrow => rowFits_nil.mpr (hrows row hrow)
  have hlt : (if caps.needsCommit then rowsBeforeCommit else 0) < 2 ^ 31 := by
    split <;> decide
  have hstart : CommitInv (if caps.needsCommit then rowsBeforeCommit else 0) [] c₀ :=
    ⟨hmax, fun hpos => ⟨hcnt, by rw [hcnt]; exact Nat.pos_of_ne_zero hpos⟩,
      by simp [CommitsFollowInserts], fun _ => nofun, fun h => absurd rfl h⟩
  refine ⟨fun pre hpre => ?_, ?_⟩
  · obtain ⟨c', sent, hnexts, -, hI⟩ :=
      CommitInv.nexts (fun row hrow => hfit row (hpre.subset hrow)) hlt hrep hstart
    refine ⟨c', sent, hnexts, fun hneeds => ?_⟩
    rw [hneeds, if_pos rfl, List.nil_append] at hI
    obtain ⟨hk, hless⟩ := hI.cnt (by decide)
    exact ⟨hI.max_eq, hk, hI.max_eq ▸ hless⟩
  · obtain ⟨c', sent, hnexts, hrep', hI⟩ := CommitInv.nexts hfit hlt hrep hstart
    obtain ⟨d, new, hdone, hfollow, hall, hnone⟩ := hI.done hrep' hlt
    refine ⟨⟨0 :: List.replicate rows.length 0, c'.bulkRows, sent ++ new, d⟩, ?_, hfollow,
      fun hneeds => hall (by rw [hneeds]; decide), fun hneeds => hnone (by rw [hneeds]; rfl)⟩
    simp [bulkRun, hinit, hnexts, hdone, bind, Except.bind]

/-- A prefix of 20 bytes and two rows that do not fit together, on a driver that needs commits. -/
theorem bulkRun_commits_twoRows :
    ∃ run, bulkRun id (fun _ => .allOk) .allOk (.replicate 20) (some (Block.zero bulkPacketSize))
        [.replicate 300000, .replicate 400000] { driver := some ⟨some ⟨true, true⟩⟩ } = .ok run ∧
      CommitsFollowInserts run.sent ∧ uncommitted run.sent = [] := by
  obtain ⟨c₀, hinit⟩ := dbBulkInsertInit_ok (ρ := CStr) (q := .replicate 20)
    (c := { driver := some ⟨some ⟨true, true⟩⟩ }) rfl (Block.zero bulkPacketSize) (by decide)
  obtain ⟨-, run, hrun, hfollow, hall, -⟩ := bulkRun_commits _ _ ⟨true, true⟩ rfl _ _ hinit id
    [.replicate 300000, .replicate 400000] (by simp [bulkPacketSize])
  exact ⟨run, hrun, hfollow, hall rfl⟩

end Sysbench.Database
