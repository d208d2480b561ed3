import Sysbench.Options.FiniteMap

/-!
# Options/ConfigFile — what a configuration file says, and what is written to one

`read_config` goes through the file in buffers of `MAXSTRLEN - 1` bytes, and a buffer that has a
delimiter is a line.  Two questions about it:

* does the line `n=v` say what `--n=v` says on the command line?  `read_config` does not look at the
  type of the option and does not see what stands behind the end of its buffer; `readConfig_line`
  is what it does with the line.
* does `read_config` read what `write_config` wrote?  There is a blank before the delimiter, and it
  becomes part of the name; `readConfig_configText` is what comes back.
-/

namespace Sysbench.Options

/-! ## Buffers -/

/-- The end of a line. -/
abbrev newline : UInt8 := '\n'.toUInt8

/-- `VALUE_DELIMITER`. -/
abbrev valueDelimiter : UInt8 := '='.toUInt8

theorem fgets_append : ∀ (n : ℕ) (file : List UInt8), (fgets n file).1 ++ (fgets n file).2 = file
  | 0, _ => rfl
  | _ + 1, [] => rfl
  | n + 1, c :: file => by
    rw [fgets]
    split_ifs
    · rfl
    · exact congrArg (c :: ·) (fgets_append n file)

theorem length_fgets_le : ∀ (n : ℕ) (file : List UInt8), (fgets n file).1.length ≤ n
  | 0, _ => le_rfl
  | _ + 1, [] => Nat.zero_le _
  | n + 1, c :: file => by
    rw [fgets]
    split_ifs
    · exact Nat.succ_le_succ (Nat.zero_le n)
    · exact Nat.succ_le_succ (length_fgets_le n file)

/-- A line ends the buffer it is in. -/
theorem newline_notMem_dropLast_fgets :
    ∀ (n : ℕ) (file : List UInt8), newline ∉ (fgets n file).1.dropLast
  | 0, _ => List.not_mem_nil
  | _ + 1, [] => List.not_mem_nil
  | n + 1, c :: file => by
    rw [fgets]
    split_ifs with hc
    · exact List.not_mem_nil
    · cases hbuf : (fgets n file).1 with
      | nil => exact List.not_mem_nil
      | cons d buf =>
        have ih := newline_notMem_dropLast_fgets n file
        rw [hbuf] at ih
        rw [List.dropLast_cons_cons, List.mem_cons]
        exact not_or.mpr ⟨Ne.symm hc, ih⟩

theorem fgets_line : ∀ {n : ℕ} {line : List UInt8} (file : List UInt8), newline ∉ line →
    line.length < n → fgets n (line ++ newline :: file) = (line ++ [newline], file)
  | 0, _, _, _, hlen => absurd hlen (Nat.not_lt_zero _)
  | n + 1, [], file, _, _ => if_pos rfl
  | n + 1, c :: line, file, hline, hlen => by
    rw [List.mem_cons, not_or] at hline
    rw [List.cons_append, fgets, if_neg (Ne.symm hline.1),
      fgets_line file hline.2 (Nat.lt_of_succ_lt_succ hlen)]
    rfl

theorem fgets_of_length_le : ∀ {n : ℕ} {line : List UInt8} (file : List UInt8), newline ∉ line →
    n ≤ line.length → fgets n (line ++ file) = (line.take n, line.drop n ++ file)
  | 0, _, _, _, _ => rfl
  | n + 1, [], file, _, hlen => absurd hlen (Nat.not_succ_le_zero n)
  | n + 1, c :: line, file, hline, hlen => by
    rw [List.mem_cons, not_or] at hline
    rw [List.cons_append, fgets, if_neg (Ne.symm hline.1),
      fgets_of_length_le file hline.2 (Nat.le_of_succ_le_succ hlen)]
    rfl

/-- The buffers of a file. -/
def buffers (file : List UInt8) : List (List UInt8) := configBuffers file.length file

theorem length_fgets_snd_lt {n : ℕ} {file : List UInt8} (hn : n ≠ 0) (hfile : file ≠ []) :
    (fgets n file).2.length < file.length := by
  obtain ⟨n, rfl⟩ := Nat.exists_eq_add_one_of_ne_zero hn
  obtain ⟨c, file, rfl⟩ := List.exists_cons_of_ne_nil hfile
  have happ := congrArg List.length (fgets_append (n + 1) (c :: file))
  have hpos : 0 < (fgets (n + 1) (c :: file)).1.length := by
    rw [fgets]
    split_ifs <;> exact Nat.succ_pos _
  rw [List.length_append] at happ
  omega

theorem configBuffers_cons (fuel : ℕ) (c : UInt8) (file : List UInt8) :
    configBuffers (fuel + 1) (c :: file) = (fgets (maxStrLen - 1) (c :: file)).1 ::
      configBuffers fuel (fgets (maxStrLen - 1) (c :: file)).2 := rfl

/-- More fuel than the length of the file changes nothing. -/
theorem configBuffers_congr : ∀ {fuel fuel' : ℕ} {file : List UInt8}, file.length ≤ fuel →
    file.length ≤ fuel' → configBuffers fuel file = configBuffers fuel' file
  | 0, 0, [], _, _ => rfl
  | 0, _ + 1, [], _, _ => rfl
  | _ + 1, 0, [], _, _ => rfl
  | _ + 1, _ + 1, [], _, _ => rfl
  | fuel + 1, fuel' + 1, c :: file, h, h' => by
    have hlt := length_fgets_snd_lt (n := maxStrLen - 1) (by decide) (List.cons_ne_nil c file)
    rw [configBuffers_cons, configBuffers_cons,
      configBuffers_congr (Nat.le_of_lt_succ (hlt.trans_le h))
        (Nat.le_of_lt_succ (hlt.trans_le h'))]

@[simp] theorem buffers_nil : buffers [] = [] := rfl

theorem buffers_eq {file : List UInt8} (h : file ≠ []) :
    buffers file = (fgets (maxStrLen - 1) file).1 :: buffers (fgets (maxStrLen - 1) file).2 := by
  have hlt := length_fgets_snd_lt (n := maxStrLen - 1) (by decide) h
  obtain ⟨c, file, rfl⟩ := List.exists_cons_of_ne_nil h
  rw [buffers, List.length_cons, configBuffers_cons,
    configBuffers_congr (Nat.le_of_lt_succ hlt) le_rfl]
  rfl

/-- A buffer is what `fgets` reads from some place of the file on. -/
theorem exists_suffix_of_mem_configBuffers : ∀ {fuel : ℕ} {file buf : List UInt8},
    buf ∈ configBuffers fuel file → ∃ rest, rest <:+ file ∧ buf = (fgets (maxStrLen - 1) rest).1
  | 0, _, _, h => absurd h List.not_mem_nil
  | _ + 1, [], _, h => absurd h List.not_mem_nil
  | fuel + 1, c :: file, buf, h => by
    rw [configBuffers_cons, List.mem_cons] at h
    rcases h with rfl | h
    · exact ⟨_, List.suffix_rfl, rfl⟩
    · obtain ⟨rest, hrest, rfl⟩ := exists_suffix_of_mem_configBuffers h
      exact ⟨rest, hrest.trans ⟨_, fgets_append _ (c :: file)⟩, rfl⟩

/-! ## Lines -/

section Stop

variable {p : UInt8 → Bool} {l t : List UInt8}

theorem takeWhile_append_stop (hl : ∀ c ∈ l, p c = true) (ht : ∀ c ∈ t.head?, p c = false) :
    (l ++ t).takeWhile p = l := by
  rw [List.takeWhile_append_of_pos hl]
  cases t with
  | nil => exact List.append_nil l
  | cons c t => rw [List.takeWhile_cons_of_neg (by simp [ht c rfl]), List.append_nil]

theorem dropWhile_append_stop (hl : ∀ c ∈ l, p c = true) (ht : ∀ c ∈ t.head?, p c = false) :
    (l ++ t).dropWhile p = t := by
  rw [List.dropWhile_append_of_pos hl]
  cases t with
  | nil => rfl
  | cons c t => exact List.dropWhile_cons_of_neg (by simp [ht c rfl])

end Stop

theorem configLine_of_notMem {buf : List UInt8} (h : valueDelimiter ∉ buf) :
    configLine buf = none := by
  have hdrop : (CStr.ofBytes buf).bytes.dropWhile (· ≠ valueDelimiter) = [] := by
    refine List.dropWhile_eq_nil_iff.mpr fun c hc => ?_
    have hne : c ≠ valueDelimiter := fun heq => h (heq ▸ (List.takeWhile_prefix _).subset hc)
    simpa using hne
  unfold configLine
  rw [hdrop]

/-- What no buffer has a delimiter in leaves the options as they are. -/
theorem readBuffers_of_none {s : Store} : ∀ {bufs : List (List UInt8)},
    (∀ buf ∈ bufs, configLine buf = none) → readBuffers s bufs = (s, true)
  | [], _ => rfl
  | buf :: bufs, h => by
    rw [List.forall_mem_cons] at h
    rw [readBuffers, h.1]
    exact readBuffers_of_none h.2

theorem readBuffers_of_notMem {s : Store} {file : List UInt8} (h : valueDelimiter ∉ file) :
    readBuffers s (buffers file) = (s, true) := by
  refine readBuffers_of_none fun buf hbuf => configLine_of_notMem fun hmem => h ?_
  obtain ⟨rest, hrest, rfl⟩ := exists_suffix_of_mem_configBuffers hbuf
  refine hrest.subset ?_
  rw [← fgets_append (maxStrLen - 1) rest]
  exact List.mem_append_left _ hmem

/-- A name a line can begin with: no delimiter, no end of line, and room for a delimiter. -/
structure LineName (n : CStr) : Prop where
  noDelimiter : valueDelimiter ∉ n.bytes
  noNewline : newline ∉ n.bytes
  short : n.length ≤ 254

theorem mem_convertDashes_iff {n : CStr} {c : UInt8} (hc : isDash c = false) :
    c ∈ (convertDashes n).bytes ↔ c ∈ n.bytes := by
  rw [isDash, Bool.or_eq_false_iff, decide_eq_false_iff_not, decide_eq_false_iff_not] at hc
  have hconvert : ∀ d, convertDash d = c ↔ d = c := by
    intro d
    unfold convertDash
    split_ifs with hd
    · exact iff_of_false (Ne.symm hc.2) fun heq => hc.1 (heq.symm.trans hd)
    · exact Iff.rfl
  rw [convertDashes, List.mem_map]
  simp only [hconvert, exists_eq_right]

/-- The dashes of a name do not matter for this. -/
theorem LineName.congr {n m : CStr} (hn : LineName n) (h : key n = key m) : LineName m := by
  rw [key_eq_iff] at h
  refine ⟨?_, ?_, ?_⟩
  · rw [← mem_convertDashes_iff (by decide), ← h, mem_convertDashes_iff (by decide)]
    exact hn.noDelimiter
  · rw [← mem_convertDashes_iff (by decide), ← h, mem_convertDashes_iff (by decide)]
    exact hn.noNewline
  · have hlen := congrArg CStr.length h
    simp only [CStr.length, convertDashes, List.length_map] at hlen
    exact hlen.symm.trans_le hn.short

theorem ofBytes_takeWhile (s : CStr) (p : UInt8 → Bool) :
    (CStr.ofBytes (s.bytes.takeWhile p)).bytes = s.bytes.takeWhile p :=
  CStr.ofBytes_bytes fun h => s.noNul ((List.takeWhile_prefix _).subset h)

/-- **A line has the name of a line**, whatever stands in the file. -/
theorem lineName_of_configLine {rest : List UInt8} {line : ConfigLine}
    (h : configLine (fgets (maxStrLen - 1) rest).1 = some line) : LineName line.name := by
  set buf := (fgets (maxStrLen - 1) rest).1 with hbuf
  unfold configLine at h
  split at h
  · exact absurd h (by simp)
  · rename_i c tmp hdrop
    obtain rfl := Option.some.inj h
    -- The name stands in the buffer before its last byte.
    have hpre : (CStr.ofBytes buf).bytes.takeWhile (· ≠ '='.toUInt8) ++ [c] <+: buf := by
      have hsplit := List.takeWhile_append_dropWhile (p := (· ≠ '='.toUInt8))
        (l := (CStr.ofBytes buf).bytes)
      rw [hdrop] at hsplit
      refine List.IsPrefix.trans ⟨tmp, ?_⟩ (List.takeWhile_prefix (· ≠ 0))
      rw [List.append_assoc]
      exact hsplit
    obtain ⟨t, ht⟩ := hpre
    have hlen : buf.length ≤ 255 := length_fgets_le _ rest
    refine ⟨?_, ?_, ?_⟩ <;> dsimp only [CStr.length] <;> rw [ofBytes_takeWhile]
    · intro hmem
      simpa using List.mem_takeWhile_imp hmem
    · intro hmem
      refine newline_notMem_dropLast_fgets (maxStrLen - 1) rest ?_
      rw [← hbuf, ← ht, List.append_assoc, List.dropLast_append_of_ne_nil (by simp)]
      exact List.mem_append_left _ hmem
    · have := congrArg List.length ht
      simp only [List.length_append, List.length_singleton] at this
      omega

theorem mem_of_mem_linesRead {line : ConfigLine} :
    ∀ {lines : List ConfigLine}, line ∈ linesRead lines → line ∈ lines
  | [], h => h
  | first :: lines, h => by
    rw [linesRead, List.mem_cons] at h
    rcases h with rfl | h
    · exact List.mem_cons_self
    · split_ifs at h
      · exact List.mem_cons_of_mem _ (mem_of_mem_linesRead h)
      · exact absurd h List.not_mem_nil

/-- **Only a name a line can begin with is set by a file.** -/
theorem lineName_of_mem_fileSettings {file : List UInt8} {x : Setting}
    (h : x ∈ fileSettings file) : LineName x.name := by
  obtain ⟨line, hline, rfl⟩ := List.mem_map.mp h
  obtain ⟨buf, hbuf, hconfig⟩ := List.mem_filterMap.mp (mem_of_mem_linesRead hline)
  obtain ⟨rest, -, rfl⟩ := exists_suffix_of_mem_configBuffers hbuf
  exact lineName_of_configLine hconfig

/-! ## The scanner -/

theorem length_drop_dropWhile_le (p : UInt8 → Bool) (c : UInt8) (tmp : List UInt8) :
    (((c :: tmp).dropWhile p).drop 1).length ≤ tmp.length := by
  have hlen := (List.dropWhile_suffix p (l := c :: tmp)).length_le
  rw [List.length_drop]
  exact Nat.sub_le_of_le_add hlen

/-- More fuel than the length of the text changes nothing. -/
theorem scanValues_congr : ∀ {fuel fuel' : ℕ} {tmp : List UInt8}, tmp.length ≤ fuel →
    tmp.length ≤ fuel' → scanValues fuel tmp = scanValues fuel' tmp
  | 0, 0, [], _, _ => rfl
  | 0, _ + 1, [], _, _ => rfl
  | _ + 1, 0, [], _, _ => rfl
  | _ + 1, _ + 1, [], _, _ => rfl
  | fuel + 1, fuel' + 1, c :: tmp, h, h' => by
    have ih : ∀ {t : List UInt8}, t.length ≤ tmp.length → scanValues fuel t = scanValues fuel' t :=
      fun ht => scanValues_congr (ht.trans (Nat.le_of_succ_le_succ h))
        (ht.trans (Nat.le_of_succ_le_succ h'))
    simp only [scanValues]
    split_ifs
    · exact ih le_rfl
    · rfl
    · split
      · rfl
      · rename_i q behind hdrop
        have hsuffix : q :: behind <:+ tmp := hdrop ▸ List.dropWhile_suffix _
        have hlen : ((behind.dropWhile (· ≠ ','.toUInt8)).drop 1).length ≤ tmp.length :=
          ((List.drop_suffix 1 _).trans (List.dropWhile_suffix _)).length_le.trans
            ((List.suffix_cons q behind).trans hsuffix).length_le
        rw [ih hlen]
    · rw [ih (length_drop_dropWhile_le _ c tmp)]

/-- The scanner with the fuel `read_config` needs. -/
def scan (tmp : List UInt8) : List CStr × Bool := scanValues tmp.length tmp

@[simp] theorem scan_nil : scan [] = ([], true) := rfl

theorem scan_space {c : UInt8} (h : isSpace c = true) (tmp : List UInt8) :
    scan (c :: tmp) = scan tmp := if_pos h

/-- The characters that end a value, or that a value cannot begin with, and the delimiter. -/
def specials : List UInt8 := [0, 9, 10, 11, 12, 13, 32, 34, 35, 39, 44, 61]

theorem mem_specials_of_endsValue {c : UInt8} (h : endsValue c = true) : c ∈ specials := by
  rw [endsValue, isSpace, Bool.or_eq_true, Bool.or_eq_true, Bool.and_eq_true] at h
  simp only [decide_eq_true_eq] at h
  rcases h with rfl | rfl | ⟨hlo, hhi⟩
  · decide
  · decide
  · have hlo' : 9 ≤ c.toNat := UInt8.le_iff_toNat_le.mp hlo
    have hhi' : c.toNat ≤ 13 := UInt8.le_iff_toNat_le.mp hhi
    rw [← UInt8.ofNat_toNat (x := c)]
    interval_cases c.toNat <;> decide

/-- A **word** is text without such a character. -/
structure Word (w : List UInt8) : Prop where
  ne_nil : w ≠ []
  plain : ∀ c ∈ w, c ∉ specials

theorem Word.not_endsValue {w : List UInt8} (hw : Word w) : ∀ c ∈ w, (!endsValue c) = true := by
  intro c hc
  rw [Bool.not_eq_true']
  exact Bool.eq_false_iff.mpr fun h => hw.plain c hc (mem_specials_of_endsValue h)

/-- A word is a value, and the character behind it goes with it. -/
theorem scan_word {w : List UInt8} (hw : Word w) (tmp : List UInt8)
    (htmp : ∀ c ∈ tmp.head?, (!endsValue c) = false) :
    scan (w ++ tmp) = (.ofBytes w :: (scan (tmp.drop 1)).1, (scan (tmp.drop 1)).2) := by
  obtain ⟨c, w, rfl⟩ := List.exists_cons_of_ne_nil hw.ne_nil
  have hc := hw.plain c List.mem_cons_self
  have hspace : isSpace c = false :=
    Bool.eq_false_iff.mpr fun h =>
      hc (mem_specials_of_endsValue (by rw [endsValue, h, Bool.or_true]))
  have hcomment : c ≠ '#'.toUInt8 := by rintro rfl; exact hc (by decide)
  have hquote : c ≠ '\''.toUInt8 := by rintro rfl; exact hc (by decide)
  have hquote' : c ≠ '"'.toUInt8 := by rintro rfl; exact hc (by decide)
  have hlen : (tmp.drop 1).length ≤ (w ++ tmp).length := by
    rw [List.length_drop, List.length_append]
    omega
  have hstep : scan (c :: w ++ tmp) = (.ofBytes ((c :: w ++ tmp).takeWhile (!endsValue ·)) ::
      (scanValues (w ++ tmp).length (((c :: w ++ tmp).dropWhile (!endsValue ·)).drop 1)).1,
      (scanValues (w ++ tmp).length (((c :: w ++ tmp).dropWhile (!endsValue ·)).drop 1)).2) := by
    rw [scan, List.cons_append, List.length_cons, scanValues]
    simp [hspace, hcomment, hquote, hquote']
  rw [hstep, takeWhile_append_stop hw.not_endsValue htmp,
    dropWhile_append_stop hw.not_endsValue htmp, scanValues_congr hlen le_rfl, scan]

/-! ## The line of one option -/

theorem configLine_eq {n : CStr} {tmp : List UInt8} (hn : valueDelimiter ∉ n.bytes)
    (htmp : 0 ∉ tmp) :
    configLine (n.bytes ++ valueDelimiter :: tmp) = some ⟨n, (scan tmp).1, (scan tmp).2⟩ := by
  have hbytes : (CStr.ofBytes (n.bytes ++ valueDelimiter :: tmp)).bytes
      = n.bytes ++ valueDelimiter :: tmp := by
    refine CStr.ofBytes_bytes fun h => ?_
    rw [List.mem_append, List.mem_cons] at h
    rcases h with h | h | h
    · exact n.noNul h
    · exact absurd h (by decide)
    · exact htmp h
  have hl : ∀ c ∈ n.bytes, decide (c ≠ valueDelimiter) = true := fun c hc =>
    decide_eq_true fun heq => hn (heq ▸ hc)
  have ht : ∀ c ∈ (valueDelimiter :: tmp).head?, decide (c ≠ valueDelimiter) = false := by
    simp
  unfold configLine
  rw [hbytes, takeWhile_append_stop hl ht, dropWhile_append_stop hl ht, CStr.ofBytes_self]
  rfl

/-- A letter of ASCII. -/
def isLetter (c : UInt8) : Bool :=
  'A'.toUInt8 ≤ c && c ≤ 'Z'.toUInt8 || 'a'.toUInt8 ≤ c && c ≤ 'z'.toUInt8

/-- A letter, a digit or one of these characters. -/
def isValueChar (c : UInt8) : Bool :=
  isLetter c || isDigit c || c ∈ "./:-_".toList.map Char.toUInt8

theorem notMem_specials_of_isValueChar {c : UInt8} (h : isValueChar c = true) : c ∉ specials := by
  have hspecials : ∀ d ∈ specials, isValueChar d = false := by decide +kernel
  intro hmem
  exact absurd h (by simp [hspecials c hmem])

/-- A value that is not empty and has no other characters. -/
structure ValueText (v : CStr) : Prop where
  ne_nil : v.bytes ≠ []
  chars : ∀ c ∈ v.bytes, isValueChar c = true

theorem ValueText.notMem {v : CStr} (hv : ValueText v) {c : UInt8} (hc : c ∈ specials) :
    c ∉ v.bytes := fun h => notMem_specials_of_isValueChar (hv.chars c h) hc

theorem ValueText.word_take {v : CStr} (hv : ValueText v) {k : ℕ} (hk : v.bytes.take k ≠ []) :
    Word (v.bytes.take k) :=
  ⟨hk, fun c hc => notMem_specials_of_isValueChar (hv.chars c (List.mem_of_mem_take hc))⟩

/-- The line `n=v` of a file. -/
def optionLine (n v : CStr) : List UInt8 := n.bytes ++ valueDelimiter :: v.bytes ++ [newline]

/-- What `read_config` sees of the value, in the buffer that has the name: a buffer holds
`MAXSTRLEN - 1` bytes. -/
def valueRead (n v : CStr) : List CStr :=
  if v.bytes.take (254 - n.length) = [] then [] else [.ofBytes (v.bytes.take (254 - n.length))]

theorem newline_notMem_optionText {n v : CStr} (hn : LineName n) (hv : ValueText v) :
    newline ∉ n.bytes ++ valueDelimiter :: v.bytes := by
  rw [List.mem_append, List.mem_cons, not_or, not_or]
  exact ⟨hn.noNewline, by decide, hv.notMem (by decide)⟩

theorem length_optionText (n v : CStr) :
    (n.bytes ++ valueDelimiter :: v.bytes).length = n.length + v.length + 1 := by
  simp only [List.length_append, List.length_cons, CStr.length]
  omega

/-- The line is in the buffer, its end included. -/
theorem fgets_optionLine_of_lt {n v : CStr} (hn : LineName n) (hv : ValueText v)
    (hfit : n.length + v.length + 1 < 255) :
    fgets (maxStrLen - 1) (optionLine n v)
      = (n.bytes ++ valueDelimiter :: (v.bytes.take (254 - n.length) ++ [newline]), []) := by
  have hall : v.bytes.take (254 - n.length) = v.bytes :=
    List.take_of_length_le (by simp only [CStr.length] at hfit ⊢; omega)
  rw [optionLine, fgets_line [] (newline_notMem_optionText hn hv) (length_optionText n v ▸ hfit),
    hall]
  simp

/-- The buffer ends within the value or right behind it. -/
theorem fgets_optionLine_of_le {n v : CStr} (hn : LineName n) (hv : ValueText v)
    (hlong : 255 ≤ n.length + v.length + 1) :
    fgets (maxStrLen - 1) (optionLine n v)
        = (n.bytes ++ valueDelimiter :: v.bytes.take (254 - n.length),
          (n.bytes ++ valueDelimiter :: v.bytes).drop 255 ++ [newline]) ∧
      valueDelimiter ∉ (n.bytes ++ valueDelimiter :: v.bytes).drop 255 ++ [newline] := by
  have hshort := hn.short
  have hk : 255 - n.bytes.length = (254 - n.length) + 1 := by
    simp only [CStr.length] at hshort ⊢
    omega
  have hnlen : n.bytes.length ≤ 255 := hshort.trans (by decide)
  have htake : (n.bytes ++ valueDelimiter :: v.bytes).take 255
      = n.bytes ++ valueDelimiter :: v.bytes.take (254 - n.length) := by
    rw [List.take_append, List.take_of_length_le hnlen, hk, List.take_succ_cons]
  have hdrop : valueDelimiter ∉ (n.bytes ++ valueDelimiter :: v.bytes).drop 255 := by
    rw [List.drop_append, List.drop_of_length_le hnlen, hk, List.drop_succ_cons, List.nil_append]
    exact fun h => hv.notMem (by decide) (List.mem_of_mem_drop h)
  constructor
  · rw [optionLine, fgets_of_length_le [newline] (newline_notMem_optionText hn hv)
      (by rw [length_optionText]; exact hlong)]
    exact congrArg (·, _) htake
  · rw [List.mem_append, not_or]
    exact ⟨hdrop, by decide⟩

/-- The first buffer of the line, and what is left of the file. -/
theorem fgets_optionLine {n v : CStr} (hn : LineName n) (hv : ValueText v) :
    ∃ e rest : List UInt8, (e = [] ∨ e = [newline]) ∧ valueDelimiter ∉ rest ∧
      fgets (maxStrLen - 1) (optionLine n v)
        = (n.bytes ++ valueDelimiter :: (v.bytes.take (254 - n.length) ++ e), rest) := by
  rcases Nat.lt_or_ge (n.length + v.length + 1) 255 with hfit | hlong
  · exact ⟨[newline], [], .inr rfl, List.not_mem_nil, fgets_optionLine_of_lt hn hv hfit⟩
  · obtain ⟨hbuffer, hrest⟩ := fgets_optionLine_of_le hn hv hlong
    exact ⟨[], _, .inl rfl, hrest, by rw [hbuffer, List.append_nil]⟩

theorem scan_value {n v : CStr} (hv : ValueText v) {e : List UInt8}
    (he : e = [] ∨ e = [newline]) :
    scan (v.bytes.take (254 - n.length) ++ e) = (valueRead n v, true) := by
  have hscan : scan e = ([], true) := by rcases he with rfl | rfl <;> rfl
  have hscan' : scan (e.drop 1) = ([], true) := by rcases he with rfl | rfl <;> rfl
  have hends : ∀ c ∈ e.head?, (!endsValue c) = false := by
    rcases he with rfl | rfl <;> decide +kernel
  rw [valueRead]
  split_ifs with htake
  · rw [htake]
    exact hscan
  · rw [scan_word (hv.word_take htake) e hends, hscan']

/-- **What `read_config` does with the line `n=v`.** -/
theorem readConfig_line {n v : CStr} (hn : LineName n) (hv : ValueText v) (s : Store) :
    readConfig s (optionLine n v)
      = (addOption n ({ · with values := valueRead n v }) s, true) := by
  obtain ⟨e, rest, he, hrest, hfgets⟩ := fgets_optionLine hn hv
  have hne : optionLine n v ≠ [] := by simp [optionLine]
  have htmp : 0 ∉ v.bytes.take (254 - n.length) ++ e := by
    rw [List.mem_append, not_or]
    refine ⟨fun h => v.noNul (List.mem_of_mem_take h), ?_⟩
    rcases he with rfl | rfl <;> decide
  change readBuffers s (buffers (optionLine n v)) = _
  rw [buffers_eq hne, hfgets, readBuffers, configLine_eq hn.noDelimiter htmp, scan_value hv he]
  exact readBuffers_of_notMem hrest

/-! ## The line and the command line -/

/-- The two stores give the same answers. -/
structure SameAnswers (s s' : Store) : Prop where
  flag : ∀ name, sbGetValueFlag s name = sbGetValueFlag s' name
  int : ∀ name, sbGetValueInt s name = sbGetValueInt s' name
  size : ∀ name, sbGetValueSize s name = sbGetValueSize s' name
  string : ∀ name, sbGetValueString s name = sbGetValueString s' name
  list : ∀ name, sbGetValueList s name = sbGetValueList s' name

/-- The line `n=v` says the same as `set_option(n, v, type)`, wherever `n` is an option of this
type. -/
def SaysTheSame (n v : CStr) (type : ArgType) : Prop :=
  ∀ (fopen : CStr → Option (List UInt8)) (s : Store) (o : Opt), findOption s n = some o →
    o.type = type →
    SameAnswers (readConfig s (optionLine n v)).1 (setOption fopen s n (some v) type).1

/-- The name is one a line can begin with, and the line is in the buffer up to its end.  A flag is
only ever set by a file: the file has to say `on`, or the buffer ends right behind the delimiter. -/
def LineFits (n v : CStr) (type : ArgType) : Prop :=
  LineName n ∧
    if type = .flag then (v = .lit "on" ∧ n.length ≤ 252) ∨ (v ≠ .lit "on" ∧ n.length = 254)
    else n.length + 1 + v.length ≤ 255

theorem addOption_congr {n : CStr} {f g : Entry → Entry} : ∀ {s : Store},
    f ((findOption s n).elim .new (·.toEntry)) = g ((findOption s n).elim .new (·.toEntry)) →
      addOption n f s = addOption n g s
  | [], h => by
    rw [addOption, addOption]
    exact congrArg (fun e : Entry => [(⟨e, convertDashes n⟩ : Opt)]) h
  | o :: s, h => by
    rw [addOption, addOption]
    rw [findOption, List.find?_cons] at h
    split_ifs with hnamed
    · rw [hnamed] at h
      exact congrArg (fun e : Entry => (⟨e, o.name⟩ : Opt) :: s) h
    · rw [Bool.not_eq_true] at hnamed
      rw [hnamed] at h
      exact congrArg (o :: ·) (addOption_congr h)

theorem sbGetValueList_eq (s : Store) (n : CStr) :
    sbGetValueList s n = (toMap s (key n)).map (·.values) := by
  rw [toMap_key, sbGetValueList, sbGetValue]
  cases findOption s n <;> rfl

theorem sbGetValueList_addOption (n : CStr) (f : Entry → Entry) (s : Store) :
    sbGetValueList (addOption n f s) n = some (f ((toMap s (key n)).getD .new)).values := by
  rw [sbGetValueList_eq, toMap_addOption, OptionMap.assign, Function.update_self]
  rfl

theorem strtokCommas_of_valueText {v : CStr} (hv : ValueText v) : strtokCommas v = [v] := by
  rw [strtokCommas, List.splitOn_eq_singleton (hv.notMem (by decide))]
  simp [hv.ne_nil]

/-- What `set_option` adds for such a value. -/
theorem valuesOf_of_valueText {v : CStr} {type : ArgType} (hv : ValueText v) (hnull : type ≠ .null)
    (hfile : type ≠ .file) : valuesOf (some v) type
      = if type = .flag then if v = .lit "on" then [.lit "on"] else [] else [v] := by
  have hblank : isBlank (some v) = false := by simp [isBlank, hv.ne_nil]
  cases type <;> simp_all [valuesOf, strtokCommas_of_valueText]

theorem valueRead_eq_nil_iff {n v : CStr} (hn : n.length ≤ 254) (hv : ValueText v) :
    valueRead n v = [] ↔ n.length = 254 := by
  rw [valueRead]
  split_ifs with htake
  · have hk : 254 - n.length = 0 := (List.take_eq_nil_iff.mp htake).resolve_right hv.ne_nil
    exact iff_of_true rfl (hn.antisymm (Nat.le_of_sub_eq_zero hk))
  · refine iff_of_false id fun hlen => htake ?_
    rw [hlen]
    rfl

theorem valueRead_eq_self_iff {n v : CStr} (hn : n.length ≤ 254) (hv : ValueText v) :
    valueRead n v = [v] ↔ n.length + 1 + v.length ≤ 255 := by
  have hbytes : (CStr.ofBytes (v.bytes.take (254 - n.length))).bytes
      = v.bytes.take (254 - n.length) :=
    CStr.ofBytes_bytes fun h => v.noNul (List.mem_of_mem_take h)
  have hfit : v.bytes.take (254 - n.length) = v.bytes ↔ n.length + 1 + v.length ≤ 255 := by
    rw [List.take_eq_self_iff, CStr.length, CStr.length]
    rw [CStr.length] at hn
    omega
  rw [← hfit, valueRead]
  split_ifs with htake
  · rw [htake]
    exact iff_of_false id hv.ne_nil.symm
  · rw [List.cons.injEq, CStr.ext_iff, hbytes]
    exact and_iff_left rfl

/-- The file and the command line give the option the same values. -/
theorem valueRead_eq_valuesOf_iff {n v : CStr} {type : ArgType} (hn : n.length ≤ 254)
    (hv : ValueText v) (hnull : type ≠ .null) (hfile : type ≠ .file) :
    valueRead n v = valuesOf (some v) type ↔
      if type = .flag then (v = .lit "on" ∧ n.length ≤ 252) ∨ (v ≠ .lit "on" ∧ n.length = 254)
      else n.length + 1 + v.length ≤ 255 := by
  rw [valuesOf_of_valueText hv hnull hfile]
  split_ifs with hflag hon
  · have hlen : v.length = 2 := by rw [hon]; decide
    rw [← hon, valueRead_eq_self_iff hn hv, hlen]
    simp only [true_and, ne_eq, not_true_eq_false, false_and, or_false]
    omega
  · rw [valueRead_eq_nil_iff hn hv]
    simp [hon]
  · exact valueRead_eq_self_iff hn hv

/-- A store with this one option. -/
def singleOption (n : CStr) (type : ArgType) (values : List CStr) : Store :=
  [⟨⟨type, values, false⟩, convertDashes n⟩]

theorem findOption_singleOption (n : CStr) (type : ArgType) (values : List CStr) :
    findOption (singleOption n type values) n = some ⟨⟨type, values, false⟩, convertDashes n⟩ :=
  List.find?_cons_of_pos (named_iff.mpr (key_convertDashes n))

/-- **A line says the same as the option on the command line exactly when it fits.** -/
theorem line_saysTheSame_iff (n v : CStr) (type : ArgType) (hv : ValueText v)
    (hnull : type ≠ .null) (hfile : type ≠ .file) :
    SaysTheSame n v type ↔ LineFits n v type := by
  constructor
  · intro h
    -- Two values are more than `set_option` gives the option.
    have hlist := (h (fun _ => none) (singleOption n type [v, v]) _
      (findOption_singleOption n type [v, v]) rfl).list n
    rw [setOption_store hfile, sbGetValueList_addOption] at hlist
    have hn : LineName n := by
      by_contra hn
      have hother : ∀ x ∈ fileSettings (optionLine n v), key x.name ≠ key n := fun x hx hkey =>
        hn ((lineName_of_mem_fileSettings hx).congr hkey)
      rw [readConfig_eq, sbGetValueList_eq, toMap_foldl_of_ne hother, ← sbGetValueList_eq] at hlist
      rw [sbGetValueList, sbGetValue, findOption_singleOption] at hlist
      have hlen := congrArg List.length (Option.some.inj hlist)
      dsimp only at hlen
      rw [valuesOf_of_valueText hv hnull hfile] at hlen
      split_ifs at hlen <;> simp at hlen
    rw [readConfig_line hn hv, sbGetValueList_addOption] at hlist
    exact ⟨hn, (valueRead_eq_valuesOf_iff hn.short hv hnull hfile).mp (Option.some.inj hlist)⟩
  · rintro ⟨hn, hfit⟩ fopen s o ho rfl
    have hvalues := (valueRead_eq_valuesOf_iff hn.short hv hnull hfile).mpr hfit
    have hstore : (readConfig s (optionLine n v)).1 = (setOption fopen s n (some v) o.type).1 := by
      rw [readConfig_line hn hv, setOption_store hfile]
      refine addOption_congr ?_
      rw [ho, hvalues]
      rfl
    rw [hstore]
    exact ⟨fun _ => rfl, fun _ => rfl, fun _ => rfl, fun _ => rfl, fun _ => rfl⟩

/-- The number of threads from a file. -/
theorem numThreads_saysTheSame : SaysTheSame (.lit "num-threads") (.lit "8") .int :=
  (line_saysTheSame_iff (.lit "num-threads") (.lit "8") .int ⟨by decide, by decide +kernel⟩
    (by decide) (by decide)).mpr
    ⟨⟨by decide, by decide, by decide⟩, by decide⟩

/-- The line `validate=off` sets the flag; on the command line `--validate=off` clears it. -/
theorem validateOff_not_saysTheSame :
    sbGetValueFlag (readConfig (singleOption (.lit "validate") .flag [])
        (optionLine (.lit "validate") (.lit "off"))).1 (.lit "validate") = true ∧
    sbGetValueFlag (setOption (fun _ => none) (singleOption (.lit "validate") .flag [])
        (.lit "validate") (some (.lit "off")) .flag).1 (.lit "validate") = false ∧
    ¬ SaysTheSame (.lit "validate") (.lit "off") .flag := by
  refine ⟨by decide, by decide, fun h => ?_⟩
  have hflag := (h (fun _ => none) (singleOption (.lit "validate") .flag []) _
    (findOption_singleOption _ _ _) rfl).flag (.lit "validate")
  exact absurd hflag (by decide)

/-! ## `write_config` -/

/-- The values of an option as they are written: `, ` stands behind each but the last. -/
def writeValues : List CStr → List UInt8
  | [] => []
  | [val] => val.bytes
  | val :: vals => val.bytes ++ ','.toUInt8 :: ' '.toUInt8 :: writeValues vals

/-- What is written for an option, up to the end of the line. -/
def writeOption (o : Opt) : List UInt8 :=
  o.name.bytes ++ [' '.toUInt8, valueDelimiter, ' '.toUInt8] ++ writeValues o.values

/-- `write_config`: the text, and the options, each of which is now marked. -/
def writeConfig : Store → List UInt8 × Store
  | [] => ([], [])
  | o :: s =>
    if o.ignore then ((writeConfig s).1, o :: (writeConfig s).2)
    else (writeOption o ++ newline :: (writeConfig s).1,
      { o with ignore := true } :: (writeConfig s).2)

theorem scan_writeValues : ∀ {vals : List CStr}, (∀ v ∈ vals, ValueText v) →
    scan (writeValues vals ++ [newline]) = (vals, true)
  | [], _ => rfl
  | [v], h => by
    have hv : Word v.bytes := ⟨(h v (by simp)).ne_nil, fun c hc =>
      notMem_specials_of_isValueChar ((h v (by simp)).chars c hc)⟩
    rw [writeValues, scan_word hv [newline] (by decide +kernel), CStr.ofBytes_self]
    rfl
  | v :: v' :: vals, h => by
    have hv : Word v.bytes := ⟨(h v (by simp)).ne_nil, fun c hc =>
      notMem_specials_of_isValueChar ((h v (by simp)).chars c hc)⟩
    rw [writeValues, List.append_assoc, List.cons_append, List.cons_append,
      scan_word hv _ (by rintro _ ⟨⟩; decide), CStr.ofBytes_self, List.drop_one, List.tail_cons,
      scan_space (by decide), scan_writeValues fun w hw => h w (List.mem_cons_of_mem v hw)]
    · rintro ⟨⟩

/-- A name with the blank that stands behind it in the file. -/
def withBlank (n : CStr) : CStr :=
  ⟨n.bytes ++ [' '.toUInt8], fun h => (List.mem_append.mp h).elim n.noNul (by decide)⟩

/-- An option as it is read from what was written for it. -/
def readBack (o : Opt) : Opt := ⟨⟨.null, o.values, false⟩, withBlank o.name⟩

/-- A letter, a digit or `_`. -/
def isNameChar (c : UInt8) : Bool := isLetter c || isDigit c || c = '_'.toUInt8

/-- A letter, a digit or one of `.`, `/`, `:`. -/
def isWrittenChar (c : UInt8) : Bool :=
  isLetter c || isDigit c || c ∈ "./:".toList.map Char.toUInt8

/-- A store that can be written: different names of these characters, values of these characters,
lines shorter than `MAXSTRLEN - 1`, and no option that is marked already. -/
structure Writable (s : Store) : Prop where
  nodup : (s.map Opt.name).Nodup
  names : ∀ o ∈ s, ∀ c ∈ o.name.bytes, isNameChar c = true
  ne_nil : ∀ o ∈ s, ∀ v ∈ o.values, v.bytes ≠ []
  chars : ∀ o ∈ s, ∀ v ∈ o.values, ∀ c ∈ v.bytes, isWrittenChar c = true
  short : ∀ o ∈ s, (writeOption o).length < maxStrLen - 1
  notIgnored : ∀ o ∈ s, o.ignore = false

theorem isValueChar_of_isWrittenChar {c : UInt8} (h : isWrittenChar c = true) :
    isValueChar c = true := by
  rw [isWrittenChar, Bool.or_eq_true, decide_eq_true_eq] at h
  rw [isValueChar, Bool.or_eq_true, decide_eq_true_eq]
  exact h.imp id fun hmem => List.mem_of_mem_take (i := 3) hmem

theorem isValueChar_of_isNameChar {c : UInt8} (h : isNameChar c = true) : isValueChar c = true := by
  rw [isNameChar, Bool.or_eq_true, decide_eq_true_eq] at h
  rw [isValueChar, Bool.or_eq_true, decide_eq_true_eq]
  rcases h with h | rfl
  · exact .inl h
  · exact .inr (by decide)

theorem Writable.of_cons {o : Opt} {s : Store} (h : Writable (o :: s)) : Writable s where
  nodup := (List.nodup_cons.mp h.nodup).2
  names := fun p hp => h.names p (List.mem_cons_of_mem o hp)
  ne_nil := fun p hp => h.ne_nil p (List.mem_cons_of_mem o hp)
  chars := fun p hp => h.chars p (List.mem_cons_of_mem o hp)
  short := fun p hp => h.short p (List.mem_cons_of_mem o hp)
  notIgnored := fun p hp => h.notIgnored p (List.mem_cons_of_mem o hp)

theorem Writable.valueText {s : Store} (h : Writable s) {o : Opt} (ho : o ∈ s) :
    ∀ v ∈ o.values, ValueText v := fun v hv =>
  ⟨h.ne_nil o ho v hv, fun c hc => isValueChar_of_isWrittenChar (h.chars o ho v hv c hc)⟩

theorem Writable.notMem_name {s : Store} (h : Writable s) {o : Opt} (ho : o ∈ s) {c : UInt8}
    (hc : c ∈ specials) : c ∉ o.name.bytes := fun hmem =>
  notMem_specials_of_isValueChar (isValueChar_of_isNameChar (h.names o ho c hmem)) hc

theorem Writable.convertDashes_withBlank {s : Store} (h : Writable s) {o : Opt} (ho : o ∈ s) :
    convertDashes (withBlank o.name) = withBlank o.name := by
  refine CStr.ext ((List.map_congr_left fun c hc => ?_).trans (List.map_id _))
  have hdash : c ≠ '-'.toUInt8 := by
    rintro rfl
    rcases List.mem_append.mp hc with hmem | hmem
    · exact absurd (h.names o ho _ hmem) (by decide)
    · exact absurd hmem (by decide)
  exact if_neg hdash

/-- What stands in a line with values: blanks, separators and the values. -/
theorem notMem_writeValues {c : UInt8} (hcomma : c ≠ ','.toUInt8) (hblank : c ≠ ' '.toUInt8) :
    ∀ {vals : List CStr}, (∀ v ∈ vals, c ∉ v.bytes) → c ∉ writeValues vals
  | [], _ => List.not_mem_nil
  | [v], h => h v List.mem_cons_self
  | v :: v' :: vals, h => by
    rw [writeValues, List.mem_append, List.mem_cons, List.mem_cons, not_or, not_or, not_or]
    · exact ⟨h v List.mem_cons_self, hcomma, hblank, notMem_writeValues hcomma hblank
        fun w hw => h w (List.mem_cons_of_mem v hw)⟩
    · rintro ⟨⟩

/-- The line of an option, seen from the delimiter. -/
theorem writeOption_eq (o : Opt) (e : List UInt8) :
    writeOption o ++ e
      = (withBlank o.name).bytes
        ++ valueDelimiter :: (' '.toUInt8 :: (writeValues o.values ++ e)) := by
  simp [writeOption, withBlank]

theorem Writable.newline_notMem {s : Store} (h : Writable s) {o : Opt} (ho : o ∈ s) :
    newline ∉ writeOption o := by
  rw [writeOption, List.mem_append, List.mem_append, not_or, not_or]
  exact ⟨⟨h.notMem_name ho (by decide), by decide⟩, notMem_writeValues (by decide) (by decide)
    fun v hv => (h.valueText ho v hv).notMem (by decide)⟩

/-- **What `read_config` makes of the line of an option.** -/
theorem Writable.configLine_writeOption {s : Store} (h : Writable s) {o : Opt} (ho : o ∈ s) :
    configLine (writeOption o ++ [newline]) = some ⟨withBlank o.name, o.values, true⟩ := by
  have hname : valueDelimiter ∉ (withBlank o.name).bytes := fun hmem =>
    (List.mem_append.mp hmem).elim (h.notMem_name ho (by decide)) (by decide)
  have htmp : 0 ∉ ' '.toUInt8 :: (writeValues o.values ++ [newline]) := by
    rw [List.mem_cons, List.mem_append, not_or, not_or]
    exact ⟨by decide, notMem_writeValues (by decide) (by decide) fun v _ => v.noNul, by decide⟩
  rw [writeOption_eq, configLine_eq hname htmp, scan_space (by decide),
    scan_writeValues (h.valueText ho)]

theorem addOption_of_none {n : CStr} {f : Entry → Entry} : ∀ {s : Store},
    (∀ o ∈ s, key o.name ≠ key n) → addOption n f s = s ++ [⟨f .new, convertDashes n⟩]
  | [], _ => rfl
  | o :: s, h => by
    rw [List.forall_mem_cons] at h
    rw [addOption, if_neg fun hnamed => h.1 (named_iff.mp hnamed), addOption_of_none h.2]
    rfl

theorem withBlank_injective : Function.Injective withBlank := fun _ _ h =>
  CStr.ext (List.append_left_injective _ (congrArg CStr.bytes h))

/-- No other option of the file comes back under the same name. -/
theorem Writable.key_readBack_ne {o p : Opt} {s : Store} (h : Writable (o :: s)) (hp : p ∈ s) :
    key (readBack o).name ≠ key (withBlank p.name) := by
  intro hkey
  have ho := List.mem_cons_self (a := o) (l := s)
  have hname : withBlank o.name = withBlank p.name := by
    rw [← h.convertDashes_withBlank ho, ← h.of_cons.convertDashes_withBlank hp]
    exact key_eq_iff.mp hkey
  refine (List.nodup_cons.mp h.nodup).1 ?_
  rw [withBlank_injective hname]
  exact List.mem_map_of_mem hp

/-- Reading line after line, behind the options that are there already. -/
theorem readBuffers_writeConfig : ∀ {s acc : Store}, Writable s →
    (∀ o ∈ s, ∀ a ∈ acc, key a.name ≠ key (withBlank o.name)) →
    readBuffers acc (buffers (writeConfig s).1) = (acc ++ s.map readBack, true)
  | [], acc, _, _ => by
    rw [List.map_nil, List.append_nil]
    rfl
  | o :: s, acc, h, hacc => by
    have ho := List.mem_cons_self (a := o) (l := s)
    have htext : (writeConfig (o :: s)).1 = writeOption o ++ newline :: (writeConfig s).1 := by
      rw [writeConfig, h.notIgnored o ho]
      rfl
    have hlen : (writeOption o).length < maxStrLen - 1 := h.short o ho
    have hadd : addOption (withBlank o.name) ({ · with values := o.values }) acc
        = acc ++ [readBack o] := by
      rw [addOption_of_none (hacc o ho), h.convertDashes_withBlank ho]
      rfl
    have hnext : ∀ p ∈ s, ∀ a ∈ acc ++ [readBack o], key a.name ≠ key (withBlank p.name) := by
      intro p hp a ha
      rcases List.mem_append.mp ha with ha | ha
      · exact hacc p (List.mem_cons_of_mem o hp) a ha
      · obtain rfl := List.mem_singleton.mp ha
        exact h.key_readBack_ne hp
    rw [htext, buffers_eq (by simp), fgets_line _ (h.newline_notMem ho) hlen, readBuffers,
      h.configLine_writeOption ho]
    dsimp only
    rw [if_pos rfl, hadd, readBuffers_writeConfig h.of_cons hnext]
    simp

/-- **What comes back**: each option under its name and a blank, with its values. -/
theorem readConfig_writeConfig {s : Store} (h : Writable s) :
    readConfig [] (writeConfig s).1 = (s.map readBack, true) :=
  readBuffers_writeConfig h fun _ _ _ ha => absurd ha List.not_mem_nil

/-- The same set of names, each with the same values. -/
structure SameOptions (s s' : Store) : Prop where
  names : ∀ n, n ∈ s.map Opt.name ↔ n ∈ s'.map Opt.name
  values : ∀ o ∈ s, ∀ o' ∈ s', o.name = o'.name → o.values = o'.values

/-- **Only the empty store survives being written and read**: every other comes back under names
with a blank, which no option had. -/
theorem readConfig_writeConfig_iff {s : Store} (h : Writable s) :
    (SameOptions s (readConfig [] (writeConfig s).1).1 ↔ s = []) ∧
      (readConfig [] (writeConfig s).1).1 = s.map readBack := by
  rw [readConfig_writeConfig h]
  refine ⟨⟨fun hsame => ?_, ?_⟩, rfl⟩
  · refine List.eq_nil_iff_forall_not_mem.mpr fun o ho => ?_
    obtain ⟨o', ho', hname⟩ := List.mem_map.mp ((hsame.names o.name).mp (List.mem_map_of_mem ho))
    obtain ⟨p, -, rfl⟩ := List.mem_map.mp ho'
    refine h.notMem_name ho (c := ' '.toUInt8) (by decide) ?_
    rw [← hname]
    exact List.mem_append_right _ List.mem_cons_self
  · rintro rfl
    exact ⟨fun _ => Iff.rfl, fun o ho => absurd ho List.not_mem_nil⟩

/-- Two options, one of them with two values. -/
def twoOptions : Store :=
  [⟨⟨.int, [.lit "8"], false⟩, .lit "num_threads"⟩,
    ⟨⟨.list, [.lit "h1:3306", .lit "h2"], false⟩, .lit "mysql_host"⟩]

theorem readConfig_writeConfig_iff_twoOptions :
    (readConfig [] (writeConfig twoOptions).1).1 = twoOptions.map readBack :=
  (readConfig_writeConfig_iff (s := twoOptions) ⟨by decide, by decide +kernel, by decide,
    by decide +kernel, by decide, by decide⟩).2

/-- An option `a` that is `b` comes back as an option of another name. -/
theorem readConfig_writeConfig_renames :
    findOption (readConfig [] (writeConfig (singleOption (.lit "a") .string [.lit "b"])).1).1
      (.lit "a") = none ∧
    ¬ SameOptions (singleOption (.lit "a") .string [.lit "b"])
      (readConfig [] (writeConfig (singleOption (.lit "a") .string [.lit "b"])).1).1 := by
  refine ⟨by decide, fun h => ?_⟩
  exact absurd ((h.names (.lit "a")).mp (by decide)) (by decide)

end Sysbench.Options
