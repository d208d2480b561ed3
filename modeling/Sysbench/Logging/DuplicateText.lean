import Sysbench.Machinery.CString
import Sysbench.Machinery.ListRuns
import Sysbench.Machinery.MachineInt

/-!
# Logging/DuplicateText — repeated messages of the text log

The text handler prints a message only if it differs from the one before.  It keeps a copy of the
last text and counts how often that came again; the number is printed late, when a different message
comes.  This is a **run-length encoding** whose last run is still in the handler's state, and its
counter is an `unsigned int`: a run is lost when it comes round to 0.
-/

namespace Sysbench.Logging

/-! ## The handler -/

/-- `TEXT_BUFFER_SIZE`. -/
def textBufferSize : ℕ := 4096

/-- `log_msg_priority_t`. -/
inductive Priority
  | fatal
  | alert
  | warning
  | notice
  | info
  | debug
  deriving DecidableEq, Repr

/-- The value of the enumerator. -/
def Priority.value : Priority → ℕ
  | .fatal => 0
  | .alert => 1
  | .warning => 2
  | .notice => 3
  | .info => 4
  | .debug => 5

/-- What is printed before a text. -/
def Priority.label : Priority → CStr
  | .fatal => .lit "FATAL: "
  | .alert => .lit "ALERT: "
  | .warning => .lit "WARNING: "
  | .debug => .lit "DEBUG: "
  | .notice | .info => .lit ""

/-- `LOG_MSG_TEXT_ALLOW_DUPLICATES`. -/
def allowDuplicates : ℕ := 1

/-- `log_msg_text_t`. -/
structure TextMsg where
  priority : Priority
  text : CStr
  flags : ℕ

/-- One `printf` of the handler: `(last message repeated %u times)`, or a text behind its label. -/
inductive Printed
  | repeated (cnt : ℕ)
  | message (label text : CStr)
  deriving DecidableEq

/-- `text_cnt`, an `unsigned int`, and `text_buf`. -/
structure TextLog where
  textCnt : ℕ
  textBuf : Block textBufferSize

/-- `text_handler_init`, behind the check of the verbosity; of `text_buf`, which is static, only the
first byte is written. -/
def textHandlerInit : TextLog := ⟨0, Block.zero textBufferSize⟩

/-- `text_handler_process`: what it prints.  The operator `!` is applied to the flags before `&`. -/
def textHandlerProcess (verbosity : ℕ) (s : TextLog) (msg : TextMsg) : List Printed × TextLog :=
  let print := [Printed.message msg.priority.label msg.text]
  if verbosity < msg.priority.value then ([], s)
  else if (if msg.flags = 0 then 1 else 0) &&& allowDuplicates ≠ 0 then
    if s.textBuf.text = msg.text.bytes then ([], { s with textCnt := toU32 (s.textCnt + 1) })
    else
      ((if 0 < s.textCnt then [Printed.repeated s.textCnt] else []) ++ print,
        ⟨0, s.textBuf.strncpy msg.text⟩)
  else (print, s)

/-- The buffer of `log_text`, for a format that expands to `formatted`: a line, cut to the size of
the buffer. -/
def logTextBuf (formatted : CStr) : CStr :=
  let clen := if textBufferSize ≤ formatted.length then textBufferSize else formatted.length
  .ofBytes ((formatted.cut textBufferSize).take clen
    ++ (CStr.lit "\n").cut (textBufferSize - clen))

/-- `log_text`, once the logger is initialised. -/
def logText (verbosity : ℕ) (s : TextLog) (priority : Priority) (formatted : CStr) :
    List Printed × TextLog :=
  textHandlerProcess verbosity s ⟨priority, logTextBuf formatted, 0⟩

/-- A call of `log_text`. -/
structure TextCall where
  priority : Priority
  formatted : CStr

/-- The text of its message. -/
def TextCall.text (call : TextCall) : CStr := logTextBuf call.formatted

/-- All that calls made one after the other print, and the handler after them. -/
def logTexts (verbosity : ℕ) (calls : List TextCall) : List Printed × TextLog :=
  calls.foldl
    (fun r call =>
      let new := logText verbosity r.2 call.priority call.formatted
      (r.1 ++ new.1, new.2))
    ([], textHandlerInit)

/-- A message that passes the verbosity. -/
theorem logText_eq {verbosity : ℕ} {priority : Priority} (h : priority.value ≤ verbosity)
    (s : TextLog) (formatted : CStr) :
    logText verbosity s priority formatted =
      if s.textBuf.text = (logTextBuf formatted).bytes then
        ([], { s with textCnt := toU32 (s.textCnt + 1) })
      else
        ((if 0 < s.textCnt then [Printed.repeated s.textCnt] else []) ++
            [.message priority.label (logTextBuf formatted)],
          ⟨0, s.textBuf.strncpy (logTextBuf formatted)⟩) := by
  have hflags : (if (0 : ℕ) = 0 then 1 else 0) &&& allowDuplicates ≠ 0 := by decide
  rw [logText, textHandlerProcess, if_neg (not_lt.mpr h), if_pos hflags]

/-- **The text of a message** is the formatted text and a newline, as far as they fit. -/
theorem logTextBuf_bytes (formatted : CStr) :
    (logTextBuf formatted).bytes = (formatted.bytes ++ [10]).take (textBufferSize - 1) := by
  have hline : 0 ∉ formatted.bytes ++ [10] := by simpa using formatted.noNul
  have hnewline : (CStr.lit "\n").bytes = [10] := by decide
  have hcut : 0 ∉ (formatted.bytes ++ [10]).take (textBufferSize - 1) :=
    fun hmem => hline (List.mem_of_mem_take hmem)
  rw [logTextBuf]
  by_cases hlong : textBufferSize ≤ formatted.length
  · -- no room behind the text
    have htake : (formatted.bytes ++ [10]).take (textBufferSize - 1)
        = formatted.bytes.take (textBufferSize - 1) :=
      List.take_append_of_le_length ((Nat.sub_le _ _).trans hlong)
    rw [htake] at hcut ⊢
    simp only [if_pos hlong, Nat.sub_self, CStr.cut, if_true, List.append_nil]
    rw [if_neg (by decide), List.take_of_length_le, CStr.ofBytes_terminated hcut]
    simp [textBufferSize]
  · rw [not_le] at hlong
    have hroom : textBufferSize - formatted.length ≠ 0 := by omega
    have htext : (formatted.cut textBufferSize).take formatted.length = formatted.bytes := by
      obtain ⟨rest, hrest⟩ := CStr.prefix_cut hlong
      rw [← hrest]
      exact List.take_left
    have htake : (formatted.bytes ++ [10]).take (textBufferSize - 1)
        = formatted.bytes ++ List.take (textBufferSize - formatted.length - 1) [10] := by
      rw [List.take_append, List.take_of_length_le (Nat.le_sub_one_of_lt hlong), Nat.sub_right_comm]
      rfl
    rw [htake] at hcut ⊢
    have hrest : (CStr.lit "\n").cut (textBufferSize - formatted.length)
        = List.take (textBufferSize - formatted.length - 1) [10] ++ [0] := by
      rw [CStr.cut, if_neg hroom, hnewline]
    simp only [if_neg (not_le.mpr hlong), htext, hrest]
    rw [← List.append_assoc, CStr.ofBytes_terminated hcut]

theorem length_logTextBuf_lt (formatted : CStr) :
    (logTextBuf formatted).length < textBufferSize := by
  rw [CStr.length, logTextBuf_bytes]
  exact (List.length_take_le _ _).trans_lt (by decide)

theorem logTextBuf_ne_empty (formatted : CStr) : logTextBuf formatted ≠ .lit "" := by
  intro heq
  have hbytes := congrArg CStr.bytes heq
  rw [logTextBuf_bytes] at hbytes
  rcases List.take_eq_nil_iff.mp hbytes with hsize | hline
  · exact absurd hsize (by decide)
  · exact absurd hline (by simp)

/-! ## What the printed lines say -/

/-- The messages that printed lines stand for; `last` is the text printed before them. -/
def expand : (last : CStr) → List Printed → List CStr
  | _, [] => []
  | last, .repeated cnt :: lines => List.replicate cnt last ++ expand last lines
  | _, .message _ text :: lines => text :: expand text lines

/-- The text of the last message printed. -/
def lastText : (last : CStr) → List Printed → CStr
  | last, [] => last
  | last, .repeated _ :: lines => lastText last lines
  | _, .message _ text :: lines => lastText text lines

theorem expand_append (last : CStr) (lines lines' : List Printed) :
    expand last (lines ++ lines') = expand last lines ++ expand (lastText last lines) lines' := by
  induction lines generalizing last with
  | nil => rfl
  | cons line lines ih => cases line <;> simp [expand, lastText, ih]

theorem lastText_append (last : CStr) (lines lines' : List Printed) :
    lastText last (lines ++ lines') = lastText (lastText last lines) lines' := by
  induction lines generalizing last with
  | nil => rfl
  | cons line lines ih => cases line <;> simp [lastText, ih]

/-- The messages the log stands for: those that are printed, and the run that is pending. -/
def recovered (r : List Printed × TextLog) : List CStr :=
  expand (.lit "") r.1 ++ List.replicate r.2.textCnt (CStr.ofBytes r.2.textBuf.1)

/-- The counter as a residue, and the buffer, of a run that may be longer. -/
structure RunInv (r : List Printed × TextLog) (u : CStr) (n : ℕ) : Prop where
  cnt : r.2.textCnt = n % 2 ^ 32
  buf : r.2.textBuf.text = u.bytes
  last : lastText (.lit "") r.1 = u

/-- `log_text` after what was printed before. -/
def logNext (verbosity : ℕ) (r : List Printed × TextLog) (call : TextCall) :
    List Printed × TextLog :=
  (r.1 ++ (logText verbosity r.2 call.priority call.formatted).1,
    (logText verbosity r.2 call.priority call.formatted).2)

theorem logTexts_concat (verbosity : ℕ) (calls : List TextCall) (call : TextCall) :
    logTexts verbosity (calls ++ [call]) = logNext verbosity (logTexts verbosity calls) call := by
  rw [logTexts, List.foldl_append]
  rfl

section Steps

variable {verbosity : ℕ} {r : List Printed × TextLog} {u : CStr} {n : ℕ} {call : TextCall}

theorem RunInv.recovered_eq (h : RunInv r u n) :
    recovered r = expand (.lit "") r.1 ++ List.replicate (n % 2 ^ 32) u := by
  have hbuf : CStr.ofBytes r.2.textBuf.1 = u := CStr.ext h.buf
  rw [recovered, h.cnt, hbuf]

/-- **The same text again** is counted. -/
theorem RunInv.same (h : RunInv r u n) (hprio : call.priority.value ≤ verbosity)
    (htext : call.text = u) :
    (logNext verbosity r call).1 = r.1 ∧ RunInv (logNext verbosity r call) u (n + 1) := by
  have hlog : logText verbosity r.2 call.priority call.formatted
      = ([], { r.2 with textCnt := toU32 (r.2.textCnt + 1) }) := by
    have hbuf : r.2.textBuf.text = (logTextBuf call.formatted).bytes := by
      rw [h.buf, ← htext]
      rfl
    rw [logText_eq hprio, if_pos hbuf]
  have hsame : (logNext verbosity r call).1 = r.1 := by rw [logNext, hlog, List.append_nil]
  refine ⟨hsame, ?_, ?_, ?_⟩
  · have hcnt := h.cnt
    rw [logNext, hlog]
    simp only [toU32]
    omega
  · rw [logNext, hlog]
    exact h.buf
  · rw [hsame]
    exact h.last

/-- The line that closes a run, if there is one, stands for what was pending. -/
theorem expand_closing (u : CStr) (cnt : ℕ) :
    expand u (if 0 < cnt then [Printed.repeated cnt] else []) = List.replicate cnt u := by
  split_ifs with hpos
  · simp [expand]
  · rw [Nat.eq_zero_of_not_pos hpos]
    rfl

/-- **Another text** closes the run and begins one. -/
theorem RunInv.different (h : RunInv r u n) (hprio : call.priority.value ≤ verbosity)
    (htext : call.text ≠ u) :
    recovered (logNext verbosity r call) = recovered r ++ [call.text] ∧
      RunInv (logNext verbosity r call) call.text 0 := by
  have hlog : logText verbosity r.2 call.priority call.formatted
      = ((if 0 < r.2.textCnt then [Printed.repeated r.2.textCnt] else []) ++
          [.message call.priority.label call.text], ⟨0, r.2.textBuf.strncpy call.text⟩) := by
    have hbuf : r.2.textBuf.text ≠ (logTextBuf call.formatted).bytes := by
      rw [h.buf]
      exact fun heq => htext (CStr.ext heq).symm
    rw [logText_eq hprio, if_neg hbuf]
    rfl
  have hinv : RunInv (logNext verbosity r call) call.text 0 := by
    refine ⟨?_, ?_, ?_⟩
    · rw [logNext, hlog]
      rfl
    · rw [logNext, hlog]
      exact Block.text_eq (Block.holds_strncpy r.2.textBuf (length_logTextBuf_lt _)) call.text.noNul
    · rw [logNext, hlog, lastText_append, lastText_append]
      rfl
  refine ⟨?_, hinv⟩
  rw [hinv.recovered_eq, h.recovered_eq, logNext, hlog, expand_append, expand_append, h.last,
    expand_closing, h.cnt]
  simp [expand]

end Steps

theorem runInv_init : RunInv ([], textHandlerInit) (.lit "") 0 where
  cnt := rfl
  buf := by decide +kernel
  last := rfl

/-- What a number of calls has left behind. -/
structure LogInv (verbosity : ℕ) (calls : List TextCall) : Prop where
  run : ∀ u n, (lastRun (calls.map TextCall.text)).getD (.lit "", 0) = (u, n) →
    RunInv (logTexts verbosity calls) u n
  length : (recovered (logTexts verbosity calls)).length ≤ calls.length
  exact : recovered (logTexts verbosity calls) = calls.map TextCall.text ↔
    ∀ t, ¬ List.replicate (2 ^ 32 + 1) t <:+: calls.map TextCall.text

theorem logInv_nil (verbosity : ℕ) : LogInv verbosity [] where
  run := by
    rintro u n h
    obtain ⟨rfl, rfl⟩ := Prod.mk.inj h
    exact runInv_init
  length := le_rfl
  exact := by
    refine ⟨fun _ t hrun => ?_, fun _ => rfl⟩
    have hlen := hrun.length_le
    rw [List.length_replicate] at hlen
    exact absurd hlen (by simp)

/-- A run goes on: the counter takes one more, or it comes round and the run is lost. -/
theorem LogInv.concat_same {verbosity : ℕ} {calls : List TextCall} {call : TextCall} {n : ℕ}
    (h : LogInv verbosity calls) (hprio : call.priority.value ≤ verbosity)
    (hlast : lastRun (calls.map TextCall.text) = some (call.text, n)) :
    LogInv verbosity (calls ++ [call]) := by
  have hnext : lastRun (calls.map TextCall.text ++ [call.text]) = some (call.text, n + 1) := by
    rw [lastRun_concat, hlast, nextRun_self]
  have hrun : RunInv (logTexts verbosity calls) call.text n := h.run _ _ (by rw [hlast]; rfl)
  obtain ⟨hsame, hrun'⟩ := hrun.same hprio rfl
  have hbefore := hrun.recovered_eq
  have hafter := hrun'.recovered_eq
  rw [hsame] at hafter
  have hlen := h.length
  rw [hbefore, List.length_append, List.length_replicate] at hlen
  refine ⟨fun u m hum => ?_, ?_, ?_⟩
  · rw [List.map_append, List.map_singleton, hnext] at hum
    obtain ⟨rfl, rfl⟩ := Prod.mk.inj hum
    rw [logTexts_concat]
    exact hrun'
  · rw [logTexts_concat, hafter, List.length_append, List.length_append, List.length_replicate,
      List.length_singleton]
    omega
  · rw [logTexts_concat, List.map_append, List.map_singleton, forall_not_infix_concat_iff hnext]
    by_cases hround : (n + 1) % 2 ^ 32 = 0
    · -- what was pending is gone, so there are not messages enough
      refine iff_of_false (fun heq => ?_) fun hall => ?_
      · have hcount := congrArg List.length heq
        simp only [hafter, hround, List.replicate_zero, List.append_nil, List.length_append,
          List.length_map, List.length_singleton] at hcount
        omega
      · omega
    · have hone : (n + 1) % 2 ^ 32 = n % 2 ^ 32 + 1 := by omega
      have hkept : recovered (logNext verbosity (logTexts verbosity calls) call)
          = recovered (logTexts verbosity calls) ++ [call.text] := by
        rw [hafter, hbefore, hone, List.replicate_succ', List.append_assoc]
      rw [hkept, List.append_left_inj, h.exact]
      refine ⟨fun hall => ⟨hall, ?_⟩, And.left⟩
      have hlt := lt_of_forall_not_infix hlast hall
      omega

/-- A run ends: the line that is printed stands for all of it. -/
theorem LogInv.concat_different {verbosity : ℕ} {calls : List TextCall} {call : TextCall} {u : CStr}
    {n : ℕ} (h : LogInv verbosity calls) (hprio : call.priority.value ≤ verbosity)
    (hlast : (lastRun (calls.map TextCall.text)).getD (.lit "", 0) = (u, n))
    (htext : call.text ≠ u) : LogInv verbosity (calls ++ [call]) := by
  have hnext : lastRun (calls.map TextCall.text ++ [call.text]) = some (call.text, 0) := by
    rw [lastRun_concat]
    cases hrun : lastRun (calls.map TextCall.text) with
    | none => rfl
    | some p =>
      obtain ⟨rfl⟩ : p = (u, n) := by rwa [hrun] at hlast
      exact nextRun_of_ne htext n
  obtain ⟨hafter, hrun'⟩ := (h.run u n hlast).different hprio htext
  refine ⟨fun v m hvm => ?_, ?_, ?_⟩
  · rw [List.map_append, List.map_singleton, hnext] at hvm
    obtain ⟨rfl, rfl⟩ := Prod.mk.inj hvm
    rw [logTexts_concat]
    exact hrun'
  · rw [logTexts_concat, hafter, List.length_append, List.length_append]
    exact Nat.add_le_add_right h.length _
  · rw [logTexts_concat, List.map_append, List.map_singleton, forall_not_infix_concat_iff hnext,
      hafter, List.append_left_inj, h.exact]
    exact (and_iff_left (by decide)).symm

theorem logInv {verbosity : ℕ} {calls : List TextCall}
    (hprio : ∀ call ∈ calls, call.priority.value ≤ verbosity) : LogInv verbosity calls := by
  induction calls using List.reverseRecOn with
  | nil => exact logInv_nil verbosity
  | append_singleton calls call ih =>
    rw [List.forall_mem_append, List.forall_mem_singleton] at hprio
    have h := ih hprio.1
    obtain ⟨u, n, hun⟩ : ∃ u n, (lastRun (calls.map TextCall.text)).getD (.lit "", 0) = (u, n) :=
      ⟨_, _, rfl⟩
    by_cases htext : call.text = u
    · cases hrun : lastRun (calls.map TextCall.text) with
      | none =>
        -- before the first message the buffer is empty, and no text is
        rw [hrun] at hun
        exact absurd (htext.trans (Prod.mk.inj hun).1.symm) (logTextBuf_ne_empty _)
      | some p =>
        obtain ⟨rfl⟩ : p = (u, n) := by rwa [hrun] at hun
        exact h.concat_same hprio.2 (by rw [hrun, htext])
    · exact h.concat_different hprio.2 hun htext

/-- **Duplicate suppression is lossless exactly while no message comes more than `2 ^ 32` times in a
row**: then, after each call, the printed lines and the pending run stand for the messages logged so
far. -/
theorem recovered_logTexts_iff {verbosity : ℕ} {calls : List TextCall}
    (hprio : ∀ call ∈ calls, call.priority.value ≤ verbosity) :
    (∀ sofar, sofar <+: calls →
        recovered (logTexts verbosity sofar) = sofar.map TextCall.text) ↔
      ∀ t, ¬ List.replicate (2 ^ 32 + 1) t <:+: calls.map TextCall.text := by
  constructor
  · intro hall
    exact (logInv hprio).exact.mp (hall calls List.prefix_rfl)
  · intro hruns sofar hsofar
    have hprio' : ∀ call ∈ sofar, call.priority.value ≤ verbosity :=
      fun call hcall => hprio call (hsofar.subset hcall)
    refine (logInv hprio').exact.mpr fun t hrun => ?_
    exact hruns t (hrun.trans (hsofar.map TextCall.text).isInfix)

/-- Two messages, the first of them twice. -/
theorem recovered_logTexts_ready :
    (∀ sofar, sofar <+: [⟨.notice, .lit "ready"⟩, ⟨.notice, .lit "ready"⟩, ⟨.fatal, .lit "lost"⟩] →
        recovered (logTexts 3 sofar) = sofar.map TextCall.text) ↔
      ∀ t, ¬ List.replicate (2 ^ 32 + 1) t <:+: List.map TextCall.text
        [⟨.notice, .lit "ready"⟩, ⟨.notice, .lit "ready"⟩, ⟨.fatal, .lit "lost"⟩] :=
  recovered_logTexts_iff (by decide)

/-- **A run that is lost**: one message `2 ^ 32 + 1` times. -/
theorem recovered_logTexts_lost :
    ∃ calls : List TextCall, (∀ call ∈ calls, call.priority.value ≤ 3) ∧
      calls = List.replicate (2 ^ 32 + 1) ⟨.notice, .lit "ready"⟩ ∧
      recovered (logTexts 3 calls) ≠ calls.map TextCall.text := by
  have hprio : ∀ call ∈ List.replicate (2 ^ 32 + 1) (⟨.notice, .lit "ready"⟩ : TextCall),
      call.priority.value ≤ 3 := by
    intro call hcall
    rw [List.eq_of_mem_replicate hcall]
    decide
  refine ⟨_, hprio, rfl, fun heq => ?_⟩
  have hruns := (logInv hprio).exact.mp heq
  rw [List.map_replicate] at hruns
  exact hruns _ List.infix_rfl

end Sysbench.Logging
