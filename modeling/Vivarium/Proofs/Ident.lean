import Mathlib.Tactic.Ring
import Vivarium.Ident

/-!
# The text of an identifier

The canonical text of an identifier names this identifier and no other: its digits are those of the two halves,
and the hyphens stand where they are looked for.

Main result: `Ident.ofText?_text`.
-/

namespace Vivarium.Ident

/-! ## Digits -/

theorem hexValue?_hexDigit : ∀ n < 16, hexValue? (hexDigit n) = some n := by decide

@[simp] theorem length_hexDigits (n width : Nat) : (hexDigits n width).length = width := by
  induction width generalizing n with
  | zero => rfl
  | succ width ih => rw [hexDigits, List.length_append, ih, List.length_singleton]

/-- Digits that are read behind others say the number modulo the power of sixteen that they fill. -/
theorem foldlM_hexDigits (n width start : Nat) :
    (hexDigits n width).foldlM (fun value c => (hexValue? c).map (16 * value + ·)) start =
      some (start * 16 ^ width + n % 16 ^ width) := by
  induction width generalizing n with
  | zero => simp [hexDigits, Nat.mod_one]
  | succ width ih =>
    have hlast : hexValue? (hexDigit (n % 16)) = some (n % 16) :=
      hexValue?_hexDigit _ (Nat.mod_lt n (by decide))
    have hsplit : n % 16 ^ (width + 1) = n % 16 + 16 * (n / 16 % 16 ^ width) := by
      rw [pow_succ', Nat.mod_mul]
    -- the last digit is written last, and read when the others have been
    rw [hexDigits, List.foldlM_append, ih, Nat.shiftRight_eq_div_pow]
    simp only [List.foldlM_cons, List.foldlM_nil, hlast, hsplit, Option.map_some, Option.bind_eq_bind,
      Option.bind_some, Option.pure_def, Option.some.injEq]
    ring

/-- The digits of the two halves say the whole. -/
theorem ofDigits?_halves (i : Ident) :
    ofDigits? (hexDigits i.high.toNat 16 ++ hexDigits i.low.toNat 16) = some i := by
  have hhigh := i.high.toNat_lt
  have hlow := i.low.toNat_lt
  -- the digits of the lower half are read on top of those of the upper one
  have hnumber : hexNumber? (hexDigits i.high.toNat 16 ++ hexDigits i.low.toNat 16) =
      some (i.high.toNat * 2 ^ 64 + i.low.toNat) := by
    rw [hexNumber?, List.foldlM_append, foldlM_hexDigits, Option.bind_eq_bind, Option.bind_some,
      foldlM_hexDigits, show 16 ^ 16 = 2 ^ 64 by decide, Nat.mod_eq_of_lt hhigh, Nat.mod_eq_of_lt hlow,
      Nat.zero_mul, Nat.zero_add]
  -- taken apart again, the number gives the two halves back
  have hwhole : ofNat (i.high.toNat * 2 ^ 64 + i.low.toNat) = i := by
    have hleft : (i.high.toNat * 2 ^ 64 + i.low.toNat) >>> 64 = i.high.toNat := by
      rw [Nat.shiftRight_eq_div_pow]
      omega
    have hright : (i.high.toNat * 2 ^ 64 + i.low.toNat).toUInt64 = i.low := by
      refine UInt64.toNat_inj.mp ?_
      rw [Nat.toUInt64, UInt64.toNat_ofNat']
      omega
    rw [ofNat, hleft, hright, Nat.toUInt64, UInt64.ofNat_toNat]
  rw [ofDigits?, if_pos (by simp), hnumber, Option.map_some, hwhole]

/-! ## Hyphens -/

section Pieces

variable {a b c d e : List Char} (ha : a.length = 8) (hb : b.length = 4) (hc : c.length = 4) (hd : d.length = 4)

include ha hb hc hd

theorem group_pieces : group (a ++ b ++ c ++ d ++ e) = a ++ '-' :: b ++ '-' :: c ++ '-' :: d ++ '-' :: e := by
  simp (disch := omega) [group, List.drop_append, List.drop_of_length_le, ha, hb, hc]

/-- The hyphens that `group` sets are taken out again. -/
theorem ofGrouped?_pieces (he : e.length = 12) :
    ofGrouped? (a ++ '-' :: b ++ '-' :: c ++ '-' :: d ++ '-' :: e) = ofDigits? (a ++ b ++ c ++ d ++ e) := by
  generalize htext : a ++ '-' :: b ++ '-' :: c ++ '-' :: d ++ '-' :: e = text
  have hlen : text.length = 36 := by simp [← htext, ha, hb, hc, hd, he]
  have hdigits : text.take 8 ++ (text.drop 9).take 4 ++ (text.drop 14).take 4 ++ (text.drop 19).take 4 ++
      text.drop 24 = a ++ b ++ c ++ d ++ e := by
    simp (disch := omega) [← htext, List.drop_append, List.drop_of_length_le, ha, hb, hc, hd]
  have hgroup : group (a ++ b ++ c ++ d ++ e) = text := (group_pieces ha hb hc hd).trans htext
  simp only [ofGrouped?, hdigits, hgroup, hlen, and_self, if_true]

end Pieces

/-- What has been grouped is read as what it was before. -/
theorem ofGrouped?_group {cs : List Char} (hlen : cs.length = 32) :
    (group cs).length = 36 ∧ ofGrouped? (group cs) = ofDigits? cs := by
  -- the pieces between which the hyphens go
  obtain ⟨a, b, c, d, e, ha, hb, hc, hd, he, rfl⟩ : ∃ a b c d e : List Char, a.length = 8 ∧ b.length = 4 ∧
      c.length = 4 ∧ d.length = 4 ∧ e.length = 12 ∧ cs = a ++ b ++ c ++ d ++ e :=
    ⟨cs.take 8, (cs.drop 8).take 4, (cs.drop 12).take 4, (cs.drop 16).take 4, cs.drop 20,
      by simp [hlen], by simp [hlen], by simp [hlen], by simp [hlen], by simp [hlen], by
        rw [← List.take_add, ← List.take_add, ← List.take_add, List.take_append_drop]⟩
  rw [group_pieces ha hb hc hd]
  exact ⟨by simp [ha, hb, hc, hd, he], ofGrouped?_pieces ha hb hc hd he⟩

/-- **The canonical text of an identifier names it.** -/
theorem ofText?_text (i : Ident) : ofText? i.text = some i := by
  have hlen : (hexDigits i.high.toNat 16 ++ hexDigits i.low.toNat 16).length = 32 := by simp
  obtain ⟨hlong, hgrouped⟩ := ofGrouped?_group hlen
  rw [ofText?, text, String.toList_ofList, hlong]
  exact hgrouped.trans (ofDigits?_halves i)

end Vivarium.Ident
