import Sysbench.Machinery.CString
import Sysbench.Random.Distributions

/-!
# Random/RandomText — the strings that `sb_rand_str` makes

The scripts make their column values from templates: a `#` becomes a digit, a `@` a small letter,
and all else is taken as it is.  A template always gives a string, of its own length; and it gives
every string that fits it (`sbRandStr_iff`).
-/

namespace Sysbench.Random

/-- The characters that are drawn for `c`, from the first to the last. -/
def drawnRange (c : UInt8) : Option (ℤ × ℤ) :=
  if c = '#'.toUInt8 then some ('0'.toNat, '9'.toNat)
  else if c = '@'.toUInt8 then some ('a'.toNat, 'z'.toNat)
  else none

/-- The loop of `sb_rand_str`: a character that is drawn takes the next draw. -/
def fillTemplate : List UInt8 → (ℕ → Draw) → Option (List UInt8)
  | [], _ => some []
  | c :: fmt, draw =>
    match drawnRange c with
    | some (a, b) => (sbRandUniform a b draw).bind fun x =>
      (fillTemplate fmt fun k => draw (k + 1)).map (UInt8.ofNat x.toNat :: ·)
    | none => (fillTemplate fmt draw).map (c :: ·)

/-- `sb_rand_str`, on the copy of the template that `sb_lua_rand_str` makes. -/
def sbRandStr (fmt : CStr) (draw : ℕ → Draw) : Option CStr :=
  (fillTemplate fmt.bytes draw).map .ofBytes

/-- The character `x` may stand where the template has `c`. -/
def Fills (c x : UInt8) : Prop :=
  match drawnRange c with
  | some (a, b) => a ≤ x.toNat ∧ x.toNat ≤ b
  | none => x = c

/-- The ranges are those of digits and small letters. -/
theorem drawnRange_bounds {c : UInt8} {a b : ℤ} (h : drawnRange c = some (a, b)) :
    0 < a ∧ a ≤ b ∧ b < 128 := by
  unfold drawnRange at h
  split_ifs at h <;> (obtain ⟨rfl, rfl⟩ := Prod.mk.inj (Option.some.inj h); decide)

/-- In so short a range nothing wraps. -/
theorem sbRandUniform_char {a b : ℤ} (ha : 0 < a) (hab : a ≤ b) (hb : b < 128)
    (draw : ℕ → Draw) :
    sbRandUniform a b draw = some (a + ((draw 0 : ℕ) : ℤ) % (b - a + 1)) := by
  have hpos : 0 < b - a + 1 := by omega
  have hn : toI32 (b - a + 1) = b - a + 1 := toI32_of_lt (by omega) (by omega)
  have hr : (((draw 0 : ℕ) : ℤ).tmod (b - a + 1)) = ((draw 0 : ℕ) : ℤ) % (b - a + 1) :=
    Int.tmod_eq_emod_of_nonneg (Int.natCast_nonneg _)
  have hlo := Int.emod_nonneg ((draw 0 : ℕ) : ℤ) hpos.ne'
  have hhi := Int.emod_lt_of_pos ((draw 0 : ℕ) : ℤ) hpos
  simp only [sbRandUniform, hn, if_neg hpos.ne', hr]
  rw [toI32_of_lt (by omega) (by omega)]

/-- A character is drawn by the value of one draw; any in the range can be. -/
theorem exists_draw {a b : ℤ} (ha : 0 < a) (hab : a ≤ b) (hb : b < 128) {x : UInt8}
    (hax : a ≤ x.toNat) (hxb : x.toNat ≤ b) :
    ∃ d : Draw, ∀ draw : ℕ → Draw, draw 0 = d → sbRandUniform a b draw = some (x.toNat : ℤ) := by
  have hd : x.toNat - a.toNat < sbMaxRnd := by
    have : x.toNat < 256 := x.toNat_lt
    unfold sbMaxRnd
    omega
  refine ⟨⟨x.toNat - a.toNat, hd⟩, fun draw hdraw => ?_⟩
  rw [sbRandUniform_char ha hab hb, hdraw, Int.emod_eq_of_lt (by omega) (by dsimp only; omega)]
  congr 1
  dsimp only
  omega

theorem fillTemplate_drawn {c : UInt8} {a b : ℤ} (h : drawnRange c = some (a, b))
    (fmt : List UInt8) (draw : ℕ → Draw) :
    fillTemplate (c :: fmt) draw = (sbRandUniform a b draw).bind fun x =>
      (fillTemplate fmt fun k => draw (k + 1)).map (UInt8.ofNat x.toNat :: ·) := by
  rw [fillTemplate, h]

theorem fillTemplate_kept {c : UInt8} (h : drawnRange c = none) (fmt : List UInt8)
    (draw : ℕ → Draw) :
    fillTemplate (c :: fmt) draw = (fillTemplate fmt draw).map (c :: ·) := by
  rw [fillTemplate, h]

/-- **Every template gives a string, which fits it.** -/
theorem exists_fillTemplate : ∀ (fmt : List UInt8) (draw : ℕ → Draw),
    ∃ s, fillTemplate fmt draw = some s ∧ List.Forall₂ Fills fmt s
  | [], _ => ⟨[], rfl, .nil⟩
  | c :: fmt, draw => by
    cases hc : drawnRange c with
    | none =>
      obtain ⟨s, hs, hfit⟩ := exists_fillTemplate fmt draw
      refine ⟨c :: s, by rw [fillTemplate_kept hc, hs]; rfl, .cons ?_ hfit⟩
      rw [Fills, hc]
    | some range =>
      obtain ⟨a, b⟩ := range
      obtain ⟨ha, hab, hb⟩ := drawnRange_bounds hc
      obtain ⟨s, hs, hfit⟩ := exists_fillTemplate fmt fun k => draw (k + 1)
      have hlo := Int.emod_nonneg ((draw 0 : ℕ) : ℤ) (b := b - a + 1) (by omega)
      have hhi := Int.emod_lt_of_pos ((draw 0 : ℕ) : ℤ) (b := b - a + 1) (by omega)
      obtain ⟨x, hx⟩ : ∃ x, x = a + ((draw 0 : ℕ) : ℤ) % (b - a + 1) := ⟨_, rfl⟩
      refine ⟨UInt8.ofNat x.toNat :: s, ?_, .cons ?_ hfit⟩
      · rw [fillTemplate_drawn hc, sbRandUniform_char ha hab hb, ← hx, hs]
        rfl
      · have hval : (UInt8.ofNat x.toNat).toNat = x.toNat :=
          UInt8.toNat_ofNat_of_lt' (by change x.toNat < 256; omega)
        rw [Fills, hc]
        dsimp only
        omega

/-- **Every string that fits is given**, by some draws. -/
theorem exists_draws_of_fits {fmt s : List UInt8} (h : List.Forall₂ Fills fmt s) :
    ∃ draw, fillTemplate fmt draw = some s := by
  induction h with
  | nil => exact ⟨fun _ => ⟨0, by norm_num [sbMaxRnd]⟩, rfl⟩
  | @cons c x fmt s hx _ ih =>
    obtain ⟨draw, hdraw⟩ := ih
    cases hc : drawnRange c with
    | none =>
      rw [Fills, hc] at hx
      exact ⟨draw, by rw [fillTemplate_kept hc, hdraw, hx]; rfl⟩
    | some range =>
      obtain ⟨a, b⟩ := range
      rw [Fills, hc] at hx
      obtain ⟨ha, hab, hb⟩ := drawnRange_bounds hc
      obtain ⟨d, hd⟩ := exists_draw ha hab hb hx.1 hx.2
      refine ⟨fun k => k.casesOn d draw, ?_⟩
      rw [fillTemplate_drawn hc, hd _ rfl, Option.bind_some, Int.toNat_natCast, UInt8.ofNat_toNat]
      exact congrArg (Option.map (x :: ·)) hdraw

/-- No character that fits in a string is its end. -/
theorem zero_notMem_of_fits {fmt s : List UInt8} (h : List.Forall₂ Fills fmt s)
    (hfmt : 0 ∉ fmt) : 0 ∉ s := by
  induction h with
  | nil => exact hfmt
  | @cons c x fmt s hx _ ih =>
    rw [List.mem_cons, not_or] at hfmt ⊢
    refine ⟨?_, ih hfmt.2⟩
    rintro rfl
    cases hc : drawnRange c with
    | none =>
      rw [Fills, hc] at hx
      exact hfmt.1 hx
    | some range =>
      rw [Fills, hc] at hx
      have hpos := (drawnRange_bounds hc).1
      exact absurd (hpos.trans_le hx.1) (by decide)

/-- **What `sb_rand_str` makes of a template**: whatever is drawn, a string, and any string can come
that has the template's length and fits it character by character. -/
theorem sbRandStr_iff (fmt : CStr) : (∀ draw, (sbRandStr fmt draw).isSome) ∧
    ∀ s, (∃ draw, sbRandStr fmt draw = some s) ↔ List.Forall₂ Fills fmt.bytes s.bytes := by
  refine ⟨fun draw => ?_, fun s => ⟨?_, fun h => ?_⟩⟩
  · obtain ⟨s, hs, -⟩ := exists_fillTemplate fmt.bytes draw
    rw [sbRandStr, hs]
    rfl
  · rintro ⟨draw, h⟩
    obtain ⟨t, ht, hfit⟩ := exists_fillTemplate fmt.bytes draw
    rw [sbRandStr, ht] at h
    obtain rfl := Option.some.inj h
    rwa [CStr.ofBytes_bytes (zero_notMem_of_fits hfit fmt.noNul)]
  · obtain ⟨draw, hdraw⟩ := exists_draws_of_fits h
    exact ⟨draw, by rw [sbRandStr, hdraw, Option.map_some, CStr.ofBytes_self]⟩

end Sysbench.Random
