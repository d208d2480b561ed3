import Sysbench.Database.BulkRep

/-!
# Database/BulkFaults — a bulk insert against a server that refuses queries

A query that fails has no effect, so what a run puts into the database is the rows of its
successful INSERTs.  `db_bulk_do_insert` moves the write position back only after the COMMIT; when
that fails, rows that are in the database stay in the buffer, and the next INSERT that succeeds
puts them there again.  `db_bulk_insert_done` drops the result of its flush, so rows can be lost in
silence.  These are the only two ways (`bulkRun_faults_iff`).
-/

namespace Sysbench.Database

variable {ρ : Type} {text : ρ → CStr} {q : CStr} {c c' : DbConn ρ}

/-- The rows a query puts into the database. -/
def Sent.inserted (s : Sent ρ) : List ρ :=
  match s.query with
  | .insert _ rows => if s.ok then rows else []
  | .commit => []

/-- The rows put into the database, as often as they were. -/
def inserted (sent : List (Sent ρ)) : List ρ := sent.flatMap Sent.inserted

/-- The query is a COMMIT that failed. -/
def Sent.CommitFailed (s : Sent ρ) : Prop := s.query = .commit ∧ s.ok = false

/-- **No INSERT succeeds after a COMMIT failed.** -/
def NoInsertAfterFailedCommit (sent : List (Sent ρ)) : Prop :=
  sent.Pairwise fun s s' => s.CommitFailed → s'.inserted = []

/-- The rows whose `db_bulk_insert_next` returned 0. -/
def accepted (rows : List ρ) (rets : List ℤ) : List ρ :=
  ((rows.zip rets).filter fun r => r.2 = 0).map Prod.fst

/-- Some call told its caller that it failed. -/
def Reported (rets : List ℤ) : Prop := ∃ ret ∈ rets, ret ≠ 0

/-- An INSERT carries the text of its rows. -/
def CarriesRows (q : CStr) (text : ρ → CStr) (s : Sent ρ) : Prop :=
  ∀ t rows, s.query = .insert t rows → t = rowsText q (rows.map text)

@[simp] theorem inserted_nil : inserted ([] : List (Sent ρ)) = [] := rfl

@[simp] theorem inserted_append (l l' : List (Sent ρ)) :
    inserted (l ++ l') = inserted l ++ inserted l' :=
  List.flatMap_append

@[simp] theorem inserted_replicate (query : Query ρ) (n : ℕ) :
    inserted (List.replicate n ⟨query, false⟩) = [] := by
  rw [inserted, List.flatMap_eq_nil_iff]
  intro s hs
  obtain rfl := List.eq_of_mem_replicate hs
  cases query <;> rfl

/-- A flush that reports success for its INSERT has inserted the pending rows, once. -/
@[simp] theorem inserted_insertLog (q : CStr) (text : ρ → CStr) (c : DbConn ρ) (j : ℕ) :
    inserted (insertLog (c.insert q text) j) = c.bulkRows := by
  rw [insertLog, inserted_append, inserted_replicate, List.nil_append]
  simp [inserted, Sent.inserted, DbConn.insert]

@[simp] theorem inserted_commit (ok : Bool) : inserted [(⟨.commit, ok⟩ : Sent ρ)] = [] := rfl

/-- Once an INSERT has succeeded after a failed COMMIT, it has. -/
theorem NoInsertAfterFailedCommit.left {l l' : List (Sent ρ)}
    (h : NoInsertAfterFailedCommit (l ++ l')) : NoInsertAfterFailedCommit l :=
  (List.pairwise_append.mp h).1

theorem inserted_eq_nil {l l' : List (Sent ρ)} (h : NoInsertAfterFailedCommit (l ++ l'))
    {s : Sent ρ} (hs : s ∈ l) (hf : s.CommitFailed) : inserted l' = [] := by
  rw [inserted, List.flatMap_eq_nil_iff]
  exact fun s' hs' => (List.pairwise_append.mp h).2.2 s hs s' hs' hf

/-- Queries that insert nothing, and among which no COMMIT failed, change nothing. -/
theorem NoInsertAfterFailedCommit.append {l l' : List (Sent ρ)} (h : NoInsertAfterFailedCommit l)
    (hins : inserted l' = []) (hok : ∀ s ∈ l', ¬ s.CommitFailed) :
    NoInsertAfterFailedCommit (l ++ l') := by
  rw [inserted, List.flatMap_eq_nil_iff] at hins
  exact List.pairwise_append.mpr ⟨h, List.pairwise_of_forall_mem_list fun s hs _ _ hf =>
    (hok s hs hf).elim, fun _ _ s' hs' _ => hins s' hs'⟩

/-- As long as no COMMIT has failed, only what comes next counts. -/
theorem noInsertAfterFailedCommit_append {l l' : List (Sent ρ)} (hok : ∀ s ∈ l, ¬ s.CommitFailed)
    (h : NoInsertAfterFailedCommit l') : NoInsertAfterFailedCommit (l ++ l') :=
  List.pairwise_append.mpr ⟨List.pairwise_of_forall_mem_list fun s hs _ _ hf =>
    (hok s hs hf).elim, h, fun s hs _ _ hf => (hok s hs hf).elim⟩

/-! ## What has become of the rows given so far -/

/-- The rows `taken` so far, the queries sent and the rows still pending.

- `clean`: no COMMIT has failed, and no row is in two places;
- `stale`: a COMMIT failed, no INSERT succeeded since, and rows that are in the database are still
  pending;
- `doubled`: an INSERT has succeeded after a failed COMMIT, and rows are in the database twice. -/
inductive Phase (taken : List ρ) (sent : List (Sent ρ)) (pending : List ρ) : Prop
  | clean : (∀ s ∈ sent, ¬ s.CommitFailed) → (inserted sent ++ pending).Sublist taken →
      Phase taken sent pending
  | stale : NoInsertAfterFailedCommit sent → (∃ s ∈ sent, s.CommitFailed) →
      (inserted sent).Nodup → (∃ row ∈ inserted sent, row ∈ pending) → Phase taken sent pending
  | doubled : ¬ NoInsertAfterFailedCommit sent → ¬ (inserted sent).Nodup → Phase taken sent pending

namespace Phase

variable {taken pending : List ρ} {sent new : List (Sent ρ)} {row : ρ}

/-- A row was refused. -/
theorem refuse (h : Phase taken sent pending) : Phase (taken ++ [row]) sent pending := by
  cases h with
  | clean hok hsub => exact .clean hok (hsub.trans (List.sublist_append_left _ _))
  | stale hno hf hnd hrow => exact .stale hno hf hnd hrow
  | doubled hno hnd => exact .doubled hno hnd

/-- A row was put behind the pending ones. -/
theorem take (h : Phase taken sent pending) : Phase (taken ++ [row]) sent (pending ++ [row]) := by
  cases h with
  | clean hok hsub =>
    refine .clean hok ?_
    rw [← List.append_assoc]
    exact hsub.append_right [row]
  | stale hno hf hnd hrow =>
    obtain ⟨r, hr, hp⟩ := hrow
    exact .stale hno hf hnd ⟨r, hr, List.mem_append_left _ hp⟩
  | doubled hno hnd => exact .doubled hno hnd

/-- A flush whose INSERT failed. -/
theorem idle (h : Phase taken sent pending) (hins : inserted new = [])
    (hok : ∀ s ∈ new, ¬ s.CommitFailed) : Phase taken (sent ++ new) pending := by
  have heq : inserted (sent ++ new) = inserted sent := by
    rw [inserted_append, hins, List.append_nil]
  cases h with
  | clean hok' hsub =>
    refine .clean (fun s hs => ?_) (heq ▸ hsub)
    exact (List.mem_append.mp hs).elim (hok' s) (hok s)
  | stale hno hf hnd hrow =>
    obtain ⟨s, hs, hfs⟩ := hf
    exact .stale (hno.append hins hok) ⟨s, List.mem_append_left _ hs, hfs⟩ (heq ▸ hnd)
      (heq ▸ hrow)
  | doubled hno hnd => exact .doubled (fun h => hno h.left) (heq ▸ hnd)

/-- An INSERT of stale rows doubles them. -/
theorem double (hf : ∃ s ∈ sent, s.CommitFailed) (hrow : ∃ row ∈ inserted sent, row ∈ pending)
    (hins : inserted new = pending) (pending' : List ρ) : Phase taken (sent ++ new) pending' := by
  obtain ⟨s, hs, hfs⟩ := hf
  obtain ⟨row, hr, hp⟩ := hrow
  refine .doubled (fun h => ?_) fun h => ?_
  · simp [← hins, inserted_eq_nil h hs hfs] at hp
  · rw [inserted_append, hins] at h
    exact (List.nodup_append'.mp h).2.2 hr hp

/-- A flush that emptied the buffer. -/
theorem flush (h : Phase taken sent pending) (hins : inserted new = pending)
    (hok : ∀ s ∈ new, ¬ s.CommitFailed) : Phase taken (sent ++ new) [] := by
  cases h with
  | clean hok' hsub =>
    refine .clean (fun s hs => (List.mem_append.mp hs).elim (hok' s) (hok s)) ?_
    rwa [inserted_append, hins, List.append_nil]
  | stale hno hf hnd hrow => exact double hf hrow hins _
  | doubled hno hnd =>
    exact .doubled (fun h => hno h.left) fun h => hnd (by
      rw [inserted_append] at h
      exact h.of_append_left)

/-- A flush whose INSERT succeeded and whose COMMIT failed. -/
theorem commitFails (h : Phase taken sent pending) (htaken : taken.Nodup) (hne : pending ≠ [])
    (hins : inserted new = pending) (hno : NoInsertAfterFailedCommit new)
    (hf : ∃ s ∈ new, s.CommitFailed) : Phase taken (sent ++ new) pending := by
  cases h with
  | clean hok hsub =>
    obtain ⟨s, hs, hfs⟩ := hf
    obtain ⟨row, hrow⟩ := List.exists_mem_of_ne_nil pending hne
    refine .stale (noInsertAfterFailedCommit_append hok hno) ⟨s, List.mem_append_right _ hs, hfs⟩
      ?_ ⟨row, ?_, hrow⟩
    · rw [inserted_append, hins]
      exact htaken.sublist hsub
    · rw [inserted_append, hins]
      exact List.mem_append_right _ hrow
  | stale hno' hf' hnd hrow => exact double hf' hrow hins _
  | doubled hno' hnd =>
    exact .doubled (fun h => hno' h.left) fun h => hnd (by
      rw [inserted_append] at h
      exact h.of_append_left)

/-- **Rows are doubled exactly when an INSERT succeeded after a failed COMMIT.** -/
theorem nodup_iff (h : Phase taken sent pending) (htaken : taken.Nodup) :
    (inserted sent).Nodup ↔ NoInsertAfterFailedCommit sent := by
  cases h with
  | clean hok hsub =>
    have hno : NoInsertAfterFailedCommit (sent ++ []) :=
      noInsertAfterFailedCommit_append hok List.Pairwise.nil
    rw [List.append_nil] at hno
    exact iff_of_true (htaken.sublist ((List.sublist_append_left _ _).trans hsub)) hno
  | stale hno hf hnd hrow => exact iff_of_true hnd hno
  | doubled hno hnd => exact iff_of_false hnd hno

end Phase

/-! ## One flush, one row -/

theorem not_commitFailed_insertLog {query : Query ρ} (hq : query ≠ .commit) {j : ℕ} {s : Sent ρ}
    (hs : s ∈ insertLog query j) : ¬ s.CommitFailed := by
  rintro ⟨hc, -⟩
  rcases List.mem_append.mp hs with hs | hs
  · obtain rfl := List.eq_of_mem_replicate hs
    exact hq hc
  · obtain rfl := List.mem_singleton.mp hs
    exact hq hc

theorem carriesRows_insert (ok : Bool) : CarriesRows q text ⟨c.insert q text, ok⟩ := by
  intro t rows h
  cases h
  rfl

theorem carriesRows_insertLog {j : ℕ} {s : Sent ρ} (hs : s ∈ insertLog (c.insert q text) j) :
    CarriesRows q text s := by
  rcases List.mem_append.mp hs with hs | hs
  · obtain rfl := List.eq_of_mem_replicate hs
    exact carriesRows_insert false
  · obtain rfl := List.mem_singleton.mp hs
    exact carriesRows_insert true

/-- **A flush of pending rows**, seen from the database: nothing inserted; all inserted but still
pending, after a failed COMMIT; or all inserted and none pending. -/
theorem dbBulkDoInsert_effect {isLast : Bool} {rp : Replies} {ret : ℤ} {new : List (Sent ρ)}
    (h : BulkRep q text c) (hr : c.bulkRows ≠ [])
    (hd : dbBulkDoInsert isLast rp c = .ok (ret, c', new)) :
    (∀ s ∈ new, CarriesRows q text s) ∧
    ((ret = 1 ∧ ¬ rp.Inserts ∧ c'.bulkRows = c.bulkRows ∧ inserted new = [] ∧
        ∀ s ∈ new, ¬ s.CommitFailed) ∨
      (ret = 1 ∧ rp.Inserts ∧ c'.bulkRows = c.bulkRows ∧ inserted new = c.bulkRows ∧
        NoInsertAfterFailedCommit new ∧ ∃ s ∈ new, s.CommitFailed) ∨
      (ret = 0 ∧ rp.Inserts ∧ c'.bulkRows = [] ∧ inserted new = c.bulkRows ∧
        ∀ s ∈ new, ¬ s.CommitFailed)) := by
  have hcommit : ∀ ok, CarriesRows q text ⟨.commit, ok⟩ := fun ok t rows hq => nomatch hq
  have hinsert : c.insert q text ≠ .commit := nofun
  obtain ⟨hno, hdo⟩ | ⟨j, k, hfirst, -, -, hdo⟩ | ⟨j, k, hfirst, -, hdo⟩ :=
    dbBulkDoInsert_cases h hr isLast rp
  · cases hdo.symm.trans hd
    refine ⟨fun s hs => ?_, .inl ⟨rfl, hno, rfl, inserted_replicate _ _, fun s hs hf => ?_⟩⟩
    · obtain rfl := List.eq_of_mem_replicate hs
      exact carriesRows_insert false
    · obtain rfl := List.eq_of_mem_replicate hs
      exact hinsert hf.1
  · cases hdo.symm.trans hd
    refine ⟨fun s hs => ?_, .inr (.inl ⟨rfl, ⟨j, hfirst.1, hfirst.2.1⟩, rfl, by simp, ?_,
      ⟨.commit, false⟩, by simp, rfl, rfl⟩)⟩
    · rcases List.mem_append.mp hs with hs | hs
      · exact carriesRows_insertLog hs
      · obtain rfl := List.mem_singleton.mp hs
        exact hcommit false
    · exact noInsertAfterFailedCommit_append (fun s hs => not_commitFailed_insertLog hinsert hs)
        (List.pairwise_singleton _ _)
  · cases hdo.symm.trans hd
    have hmem : ∀ s ∈ (if CommitDue isLast c then [(⟨.commit, true⟩ : Sent ρ)] else []),
        s = ⟨.commit, true⟩ := by
      intro s hs
      split_ifs at hs
      · exact List.mem_singleton.mp hs
      · cases hs
    refine ⟨fun s hs => ?_, .inr (.inr ⟨rfl, ⟨j, hfirst.1, hfirst.2.1⟩, rfl, ?_, fun s hs => ?_⟩)⟩
    · rcases List.mem_append.mp hs with hs | hs
      · exact carriesRows_insertLog hs
      · exact hmem s hs ▸ hcommit true
    · rw [inserted_append, inserted_insertLog]
      split_ifs <;> simp
    · rcases List.mem_append.mp hs with hs | hs
      · exact not_commitFailed_insertLog hinsert hs
      · rw [hmem s hs]
        exact fun hf => nomatch hf.2

/-- **The invariant of a bulk insert**: the buffer holds the pending rows, the rows taken are in a
phase, none of them is missing unless a failure was reported, and every INSERT carried its rows. -/
structure BulkLedger (q : CStr) (text : ρ → CStr) (taken : List ρ) (rets : List ℤ)
    (sent : List (Sent ρ)) (c : DbConn ρ) : Prop where
  rep : BulkRep q text c
  phase : Phase taken sent c.bulkRows
  account : Reported rets ∨ inserted sent ++ c.bulkRows = taken
  carries : ∀ s ∈ sent, CarriesRows q text s

theorem Reported.append {rets : List ℤ} (h : Reported rets) (rets' : List ℤ) :
    Reported (rets ++ rets') := by
  obtain ⟨ret, hret, hne⟩ := h
  exact ⟨ret, List.mem_append_left _ hret, hne⟩

theorem reported_one (rets : List ℤ) : Reported (rets ++ [1]) := ⟨1, by simp, by decide⟩

/-- **Every call of `db_bulk_insert_next` keeps it.** -/
theorem BulkLedger.next {taken : List ρ} {rets : List ℤ} {sent new : List (Sent ρ)} {row : ρ}
    {rp : Replies} {ret : ℤ} (h : BulkLedger q text taken rets sent c) (htaken : taken.Nodup)
    (hn : dbBulkInsertNext text row rp c = .ok (ret, c', new)) :
    BulkLedger q text (taken ++ [row]) (rets ++ [ret]) (sent ++ new) c' := by
  obtain ⟨hrep, hphase, haccount, hcarries⟩ := h
  obtain ⟨rfl, -, rfl, rfl⟩ | ⟨rfl, hr, hd⟩ | ⟨rfl, hr, ⟨c₁, hd⟩, hrep', hrows⟩ |
    ⟨rfl, rfl, hrep', hrows⟩ := dbBulkInsertNext_cases hrep hn
  · exact ⟨hrep, by simpa using hphase.refuse, .inl (reported_one _), by simpa using hcarries⟩
  · obtain ⟨hnew, heffect⟩ := dbBulkDoInsert_effect hrep hr hd
    refine ⟨hrep.of_dbBulkDoInsert hd, ?_, .inl (reported_one _), fun s hs =>
      (List.mem_append.mp hs).elim (hcarries s) (hnew s)⟩
    obtain ⟨-, -, hrows, hins, hok⟩ | ⟨-, -, hrows, hins, hno, hf⟩ | ⟨hret, -⟩ := heffect
    · rw [hrows]
      exact (hphase.idle hins hok).refuse
    · rw [hrows]
      exact (hphase.commitFails htaken hr hins hno hf).refuse
    · cases hret
  · obtain ⟨hnew, heffect⟩ := dbBulkDoInsert_effect hrep hr hd
    obtain ⟨hret, -⟩ | ⟨hret, -⟩ | ⟨-, -, -, hins, hok⟩ := heffect
    · cases hret
    · cases hret
    · refine ⟨hrep', ?_, haccount.imp (·.append _) fun heq => ?_, fun s hs =>
        (List.mem_append.mp hs).elim (hcarries s) (hnew s)⟩
      · rw [hrows]
        exact (hphase.flush hins hok).take
      · rw [inserted_append, hins, hrows, heq]
  · refine ⟨hrep', ?_, haccount.imp (·.append _) fun heq => ?_, by simpa using hcarries⟩
    · rw [hrows, List.append_nil]
      exact hphase.take
    · rw [List.append_nil, hrows, ← List.append_assoc, heq]

/-- **Every run of `db_bulk_insert_next` keeps it**, whatever the calls returned. -/
theorem BulkLedger.nexts {replies : ρ → Replies} {rows : List ρ} :
    ∀ {taken : List ρ} {rets : List ℤ} {sent : List (Sent ρ)} {c c' : DbConn ρ}
      {rets' : List ℤ} {new : List (Sent ρ)},
      BulkLedger q text taken rets sent c → (taken ++ rows).Nodup →
      bulkNexts text replies rows c = .ok (rets', c', new) →
      BulkLedger q text (taken ++ rows) (rets ++ rets') (sent ++ new) c' ∧
        rets'.length = rows.length := by
  induction rows with
  | nil =>
    intro taken rets sent c c' rets' new h _ hn
    cases hn
    exact ⟨by simpa using h, rfl⟩
  | cons row rows ih =>
    intro taken rets sent c c' rets' new h htaken hn
    obtain ⟨⟨ret, c₁, new₁⟩, hnext, hn⟩ := except_bind_eq_ok.mp hn
    obtain ⟨⟨rets₂, c₂, new₂⟩, hnexts, hn⟩ := except_bind_eq_ok.mp hn
    cases hn
    have hstep := h.next htaken.of_append_left hnext
    rw [List.append_cons] at htaken
    obtain ⟨hledger, hlen⟩ := ih hstep htaken hnexts
    exact ⟨by simpa using hledger, by simp [hlen]⟩

/-! ## The whole run -/

/-- Without a reported failure every row was accepted. -/
theorem accepted_eq {rows : List ρ} {rets : List ℤ} (hlen : rets.length = rows.length)
    (h : ¬ Reported rets) : accepted rows rets = rows := by
  have hzero : ∀ r ∈ rows.zip rets, decide (r.2 = 0) = true := by
    intro r hr
    by_contra hne
    exact h ⟨r.2, (List.of_mem_zip hr).2, by simpa using hne⟩
  rw [accepted, List.filter_eq_self.mpr hzero, List.map_fst_zip hlen.ge]

/-- **What is asked of a run**: no row is in two successful INSERTs, and a row that was accepted and
is in none comes with a failure that was reported. -/
structure NoRowDoubledOrLost (rows : List ρ) (run : BulkRun ρ) : Prop where
  once : (inserted run.sent).Nodup
  reported : ∀ row ∈ accepted rows run.rets.tail, row ∉ inserted run.sent → Reported run.rets

/-- Rows are lost in silence exactly when they were pending at the end, no failure had been
reported, and none of the last INSERT attempts succeeded. -/
theorem BulkLedger.reported_iff {rows : List ρ} {rets : List ℤ} {sent new : List (Sent ρ)}
    {last : Replies} (h : BulkLedger q text rows (0 :: rets) sent c) (hnd : rows.Nodup)
    (hlen : rets.length = rows.length)
    (hnew : inserted new = if last.Inserts then c.bulkRows else []) :
    (∀ row ∈ accepted rows rets, row ∉ inserted (sent ++ new) → Reported (0 :: rets)) ↔
      (c.bulkRows ≠ [] → last.Inserts ∨ Reported (0 :: rets)) := by
  by_cases hrep : Reported (0 :: rets)
  · exact iff_of_true (fun _ _ _ => hrep) fun _ => .inr hrep
  have hall := h.account.resolve_left hrep
  have hacc : accepted rows rets = rows :=
    accepted_eq hlen fun ⟨ret, hret, hne⟩ => hrep ⟨ret, List.mem_cons_of_mem _ hret, hne⟩
  rw [hacc, inserted_append, hnew]
  by_cases hins : last.Inserts
  · rw [if_pos hins, hall]
    exact iff_of_true (fun row hrow hno => (hno hrow).elim) fun _ => .inl hins
  · rw [if_neg hins, List.append_nil]
    constructor
    · intro hlost hne
      obtain ⟨row, hrow⟩ := List.exists_mem_of_ne_nil _ hne
      rw [← hall] at hnd hlost
      exact .inr (hlost row (List.mem_append_right _ hrow) fun hmem =>
        (List.nodup_append'.mp hnd).2.2 hmem hrow)
    · intro hempty row hrow hno
      by_cases hp : c.bulkRows = []
      · rw [hp, List.append_nil] at hall
        exact (hno (hall ▸ hrow)).elim
      · exact (hempty hp).resolve_left hins

/-- **The last flush**: it inserts what is pending if an attempt succeeds, and leaves the rows in a
phase. -/
theorem BulkLedger.done {taken : List ρ} {rets : List ℤ} {sent new : List (Sent ρ)}
    {last : Replies} {ret : ℤ} (h : BulkLedger q text taken rets sent c) (htaken : taken.Nodup)
    (hd : dbBulkDoInsert true last c = .ok (ret, c', new)) :
    (∀ s ∈ new, CarriesRows q text s) ∧
      inserted new = (if last.Inserts then c.bulkRows else []) ∧
      ∃ pending, Phase taken (sent ++ new) pending := by
  by_cases hr : c.bulkRows = []
  · cases (dbBulkDoInsert_empty h.rep hr true last).symm.trans hd
    exact ⟨by simp, by simp [hr], _, by simpa using h.phase⟩
  obtain ⟨hnew, heffect⟩ := dbBulkDoInsert_effect h.rep hr hd
  obtain ⟨-, hno, -, hins, hok⟩ | ⟨-, hyes, -, hins, hno, hf⟩ | ⟨-, hyes, -, hins, hok⟩ := heffect
  · exact ⟨hnew, by rw [hins, if_neg hno], _, h.phase.idle hins hok⟩
  · exact ⟨hnew, by rw [hins, if_pos hyes], _, h.phase.commitFails htaken hr hins hno hf⟩
  · exact ⟨hnew, by rw [hins, if_pos hyes], _, h.phase.flush hins hok⟩

/-- A server that refuses everything. -/
def Replies.noneOk : Replies := ⟨fun _ => false, false⟩

/-- One row, and a server that is gone when it is to be flushed. -/
theorem bulkRun_refused (q : CStr) (row : ℕ → CStr) (m : Block bulkPacketSize) (c : DbConn ℕ)
    {caps : DrvCaps} (hcaps : c.driver.bind DbDriver.describe = some caps)
    (hrow : q.length + (row 0).length + 1 ≤ bulkPacketSize) :
    ∃ run, bulkRun row (fun _ => .allOk) .noneOk q (some m) (List.range 1) c = .ok run ∧
      run.rets = [0, 0] ∧ inserted run.sent = [] := by
  have hsize : bulkPacketSize = 524288 := rfl
  obtain ⟨c₀, hinit⟩ := dbBulkInsertInit_ok (q := q) hcaps m (by omega)
  obtain ⟨hrep, hempty⟩ : BulkRep q row c₀ ∧ c₀.bulkRows = [] := bulkRep_of_init hinit
  have hfits : RowFits q row c₀.bulkRows 0 := by
    rw [hempty]
    exact rowFits_nil.mpr hrow
  obtain ⟨c₁, hnext, hrep₁, hrows⟩ := dbBulkInsertNext_room hrep (by omega) hfits .allOk
  have hr : c₁.bulkRows ≠ [] := by simp [hrows]
  obtain ⟨-, hdo⟩ | ⟨j, k, hfirst, -⟩ | ⟨j, k, hfirst, -⟩ :=
    dbBulkDoInsert_cases hrep₁ hr true .noneOk
  · refine ⟨⟨[0, 0], c₁.bulkRows, List.replicate 5 ⟨c₁.insert q row, false⟩,
      { c₁ with bulkBuffer := none }⟩, ?_, rfl, inserted_replicate _ _⟩
    simp [bulkRun, hinit, List.range_succ, bulkNexts, hnext, dbBulkInsertDone_of hdo, bind,
      Except.bind]
  · cases hfirst.2.1
  · cases hfirst.2.1

/-- **A bulk insert against failures.**  Whatever the server answers and whatever the connection
was used for before, every INSERT carries the rows it is said to carry, and no row is doubled or
silently lost if and only if no INSERT succeeds after a COMMIT failed, and the last flush inserts
what it finds pending unless a failure has already been reported. -/
theorem bulkRun_faults_iff (row : ℕ → CStr) (replies : ℕ → Replies) (last : Replies) (q : CStr)
    (mem : Option (Block bulkPacketSize)) (n : ℕ) (c : DbConn ℕ) {run : BulkRun ℕ}
    (h : bulkRun row replies last q mem (List.range n) c = .ok run) :
    (∀ s ∈ run.sent, CarriesRows q row s) ∧
      (NoRowDoubledOrLost (List.range n) run ↔
        NoInsertAfterFailedCommit run.sent ∧
          (run.pending ≠ [] → last.Inserts ∨ Reported run.rets)) := by
  obtain ⟨⟨ret, c₀⟩, hinit, h⟩ := except_bind_eq_ok.mp h
  by_cases hret : ret = 0
  · subst hret
    rw [if_neg (by simp)] at h
    obtain ⟨⟨rets, c', sent⟩, hnexts, h⟩ := except_bind_eq_ok.mp h
    obtain ⟨⟨d, new⟩, hdone, h⟩ := except_bind_eq_ok.mp h
    obtain ⟨⟨ret', d', new'⟩, hdo, hdone⟩ := except_bind_eq_ok.mp hdone
    cases hdone
    cases h
    obtain ⟨hrep, hempty⟩ : BulkRep q row c₀ ∧ c₀.bulkRows = [] := bulkRep_of_init hinit
    have hstart : BulkLedger q row [] [0] [] c₀ :=
      ⟨hrep, .clean (by simp) (by simp [hempty]), .inr (by simp [hempty]), by simp⟩
    obtain ⟨hledger, hlen⟩ := hstart.nexts (by simpa using List.nodup_range) hnexts
    simp only [List.nil_append, List.singleton_append] at hledger
    have hnd := List.nodup_range (n := n)
    obtain ⟨hnew, hins, _, hphase⟩ := hledger.done hnd hdo
    have honce := hphase.nodup_iff hnd
    have hloss := hledger.reported_iff hnd hlen hins
    refine ⟨fun s hs => (List.mem_append.mp hs).elim (hledger.carries s) (hnew s), ?_, ?_⟩
    · exact fun hrun => ⟨honce.mp hrun.once, hloss.mp hrun.reported⟩
    · exact fun hcond => ⟨honce.mpr hcond.1, hloss.mpr hcond.2⟩
  · -- the initialisation failed, which ends the run and is reported
    rw [if_pos (by simpa using hret)] at h
    cases h
    have hrep : Reported [ret] := ⟨ret, List.mem_singleton_self ret, hret⟩
    exact ⟨by simp, iff_of_true ⟨List.nodup_nil, fun _ _ _ => hrep⟩
      ⟨List.Pairwise.nil, fun hne => (hne rfl).elim⟩⟩

theorem bulkRun_faults_refused :
    ∃ run, bulkRun (fun _ => .replicate 10) (fun _ => .allOk) .noneOk (.replicate 20)
        (some (Block.zero bulkPacketSize)) (List.range 1)
        { driver := some ⟨some ⟨true, true⟩⟩ } = .ok run ∧
      (∀ s ∈ run.sent, CarriesRows (.replicate 20) (fun _ => .replicate 10) s) ∧
      (NoRowDoubledOrLost (List.range 1) run ↔
        NoInsertAfterFailedCommit run.sent ∧
          (run.pending ≠ [] → Replies.noneOk.Inserts ∨ Reported run.rets)) := by
  obtain ⟨run, hrun, -⟩ := bulkRun_refused (.replicate 20) (fun _ => .replicate 10)
    (Block.zero bulkPacketSize) { driver := some ⟨some ⟨true, true⟩⟩ } rfl
    (by simp [bulkPacketSize])
  exact ⟨run, hrun, bulkRun_faults_iff _ _ _ _ _ _ _ hrun⟩

/-- **A row lost in silence**: accepted, refused by the server five times over when
`db_bulk_insert_done` sends it, and nobody is told. -/
theorem refusedRow_lost :
    ∃ run, bulkRun (fun _ => .replicate 10) (fun _ => .allOk) .noneOk (.replicate 20)
        (some (Block.zero bulkPacketSize)) (List.range 1)
        { driver := some ⟨some ⟨true, true⟩⟩ } = .ok run ∧
      ¬ NoRowDoubledOrLost (List.range 1) run := by
  obtain ⟨run, hrun, hrets, hins⟩ := bulkRun_refused (.replicate 20) (fun _ => .replicate 10)
    (Block.zero bulkPacketSize) { driver := some ⟨some ⟨true, true⟩⟩ } rfl
    (by simp [bulkPacketSize])
  refine ⟨run, hrun, fun h => ?_⟩
  obtain ⟨ret, hret, hne⟩ := h.reported 0 (by simp [hrets, accepted]) (by simp [hins])
  simp [hrets] at hret
  exact hne hret

end Sysbench.Database
