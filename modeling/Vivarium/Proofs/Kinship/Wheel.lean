import Vivarium.Proofs.Kinship.Bigrams

/-!
# The hue and the bins

Of a string the hue looks at nothing but how many pairs of adjacent bytes fall into each of the three bins. The bin
of a pair is that of the pair turned round, so bytes in reverse order have the same hue. Where every character is
one byte, as in a genetic string, that is the string read backwards. A wider character keeps the order of its own
bytes when the characters around it are reversed, and then the hue can change.

Main result: `hue_is_a_degree_of_the_bins`.
-/

namespace Vivarium

/-! ## Pairs in reverse order -/

section Pairs

variable {α : Type}

theorem adjacentPairs_concat (xs : List α) (y z : α) :
    adjacentPairs (xs ++ [y, z]) = adjacentPairs (xs ++ [y]) ++ [(y, z)] := by
  induction xs with
  | nil => rfl
  | cons x xs ih =>
    -- the first pair ends with whatever comes next, which is `y` if nothing does
    cases xs with
    | nil => rfl
    | cons w xs => exact congrArg ((x, w) :: ·) ih

/-- **Reversing a list** reverses its pairs and turns each of them round. -/
theorem adjacentPairs_reverse (xs : List α) :
    adjacentPairs xs.reverse = ((adjacentPairs xs).map Prod.swap).reverse := by
  induction xs with
  | nil => rfl
  | cons x xs ih =>
    cases xs with
    | nil => rfl
    | cons y xs =>
      -- the first pair of the list becomes the last one of the reverse, with its sides swapped
      rw [List.reverse_cons, List.reverse_cons, List.append_assoc, List.singleton_append, adjacentPairs_concat,
        ← List.reverse_cons, ih, show adjacentPairs (x :: y :: xs) = (x, y) :: adjacentPairs (y :: xs) from rfl,
        List.map_cons, List.reverse_cons]
      rfl

end Pairs

/-! ## Bins -/

/-- How many pairs of adjacent bytes fall into bin `k`. -/
def pairsInBin (bytes : List UInt8) (k : Nat) : Nat :=
  (adjacentPairs bytes).countP fun (a, b) => (a.toNat + b.toNat) % 3 = k

theorem channels_ofBytes (bytes : List UInt8) :
    Channels.ofBytes bytes = ⟨pairsInBin bytes 0, pairsInBin bytes 1, pairsInBin bytes 2⟩ := by
  have hcount (k : Nat) : ((adjacentPairs bytes).map Channels.bin).count k = pairsInBin bytes k := by
    rw [List.count, List.countP_map]
    rfl
  unfold Channels.ofBytes
  simp only [hcount]

theorem pairsInBin_reverse (bytes : List UInt8) (k : Nat) : pairsInBin bytes.reverse k = pairsInBin bytes k := by
  unfold pairsInBin
  rw [adjacentPairs_reverse, List.countP_reverse, List.countP_map]
  refine List.countP_congr fun (a, b) _ => ?_
  simp [Nat.add_comm]

/-- Strings with the same bins have the same hue. -/
theorem geneticHue_congr {s t : String}
    (h : ∀ k < 3, pairsInBin s.toUTF8.toList k = pairsInBin t.toUTF8.toList k) : geneticHue s = geneticHue t := by
  unfold geneticHue
  rw [channels_ofBytes, channels_ofBytes, h 0 (by decide), h 1 (by decide), h 2 (by decide)]

/-! ## Characters of one byte -/

theorem bytes_ofList (cs : List Char) : (String.ofList cs).toUTF8.toList = cs.flatMap String.utf8EncodeChar := by
  rw [byteArray_toList_eq, String.toUTF8_eq_toByteArray, String.toByteArray_ofList]
  exact List.toList_data_toByteArray

/-- The bytes of a string whose characters have one byte each are its characters. -/
theorem bytes_of_ascii {cs : List Char} (h : ∀ c ∈ cs, c.toNat < 128) :
    (String.ofList cs).toUTF8.toList = cs.map fun c => c.val.toUInt8 := by
  rw [bytes_ofList]
  induction cs with
  | nil => rfl
  | cons c cs ih =>
    obtain ⟨hc, hcs⟩ := List.forall_mem_cons.mp h
    -- a character below 128 is one byte
    have hsize : c.utf8Size = 1 := Char.utf8Size_eq_one_iff.mpr (UInt32.le_iff_toNat_le.mpr (Nat.le_of_lt_succ hc))
    rw [List.flatMap_cons, String.utf8EncodeChar_eq_singleton hsize, ih hcs]
    rfl

/-- Characters of one byte are reversed as their bytes are. -/
theorem bytes_reverse_of_ascii {s : String} (h : ∀ c ∈ s.toList, c.toNat < 128) :
    (String.ofList s.toList.reverse).toUTF8.toList = s.toUTF8.toList.reverse := by
  have hbytes := bytes_of_ascii h
  rw [String.ofList_toList] at hbytes
  rw [hbytes, bytes_of_ascii fun c hc => h c (List.mem_reverse.mp hc), List.map_reverse]

/-! ## The hue -/

/-- **The hue is a whole number of degrees on the wheel, and comes from the bins alone.** A program's is one of the
360 whole numbers from zero. Strings with the same number of pairs in each bin have the same hue. Such are strings
of which one has the bytes of the other in reverse order, and so a string of characters of one byte each and the
same string read backwards. -/
theorem hue_is_a_degree_of_the_bins :
    (∀ p : Program, ∃ n : Nat, n < 360 ∧ geneticHue p.geneticString = Float.ofNat n ∧
        0.0 ≤ geneticHue p.geneticString ∧ geneticHue p.geneticString < 360.0) ∧
      (∀ s t : String, (∀ k < 3, pairsInBin s.toUTF8.toList k = pairsInBin t.toUTF8.toList k) →
        geneticHue s = geneticHue t) ∧
      (∀ s t : String, t.toUTF8.toList = s.toUTF8.toList.reverse → geneticHue s = geneticHue t) ∧
      ∀ s : String, (∀ c ∈ s.toList, c.toNat < 128) →
        geneticHue s = geneticHue (String.ofList s.toList.reverse) := by
  -- a pair and its swap fall into the same bin, so the bins of the reverse are the same
  have hreverse (s t : String) (h : t.toUTF8.toList = s.toUTF8.toList.reverse) : geneticHue s = geneticHue t :=
    geneticHue_congr fun k _ => by rw [h, pairsInBin_reverse]
  refine ⟨fun p => ?_, fun s t h => geneticHue_congr h, hreverse,
    fun s h => hreverse _ _ (bytes_reverse_of_ascii h)⟩
  obtain ⟨n, hn, hhue⟩ := exists_geneticHue_eq p.utf8ByteSize_geneticString_lt
  -- the hue is a whole number of degrees, so its bounds are those of a natural number
  have hwhole := Double.isWhole_ofNat (n := n) (by omega)
  have hturn : Double.IsWhole 360.0 360 := Double.isWhole_ofNat (n := 360) (by decide)
  refine ⟨n, hn, hhue, ?_, ?_⟩
  · rw [hhue, Double.nonneg_iff, hwhole.2]
    exact ⟨Double.isNumber_of_isFinite hwhole.1, Int.mul_nonneg (Int.natCast_nonneg _) (Int.natCast_nonneg _)⟩
  · rw [hhue]
    exact (hwhole.lt_iff hturn).mpr (by omega)

/-- Fifteen genes that wait have one hue, and so have a string, its reverse and one with other letters in which the
same bins are hit. -/
theorem hue_is_a_degree_of_the_bins_uniform :
    (∃ (p : Program) (n : Nat), p.geneticString = "PPPPPPPPPPPPPPP" ∧ n < 360 ∧
        geneticHue "PPPPPPPPPPPPPPP" = Float.ofNat n ∧ 0.0 ≤ geneticHue "PPPPPPPPPPPPPPP") ∧
      geneticHue "AAB" = geneticHue "DAB" ∧ geneticHue "AAB" = geneticHue "BAA" := by
  obtain ⟨hprogram, hbins, -, hreverse⟩ := hue_is_a_degree_of_the_bins
  let p : Program := ⟨List.replicate 15 ⟨.nil, 15, 100, .wait⟩, ⟨by decide, by decide, by decide⟩⟩
  obtain ⟨n, hn, hhue, hnonneg, -⟩ := hprogram p
  have hletters : p.geneticString = "PPPPPPPPPPPPPPP" := rfl
  rw [hletters] at hhue hnonneg
  have hascii : "AAB".toList.all (·.toNat < 128) = true := by decide
  have hbackward := hreverse "AAB" fun c hc => of_decide_eq_true (List.all_eq_true.mp hascii c hc)
  rw [show String.ofList "AAB".toList.reverse = "BAA" from rfl] at hbackward
  exact ⟨⟨p, n, hletters, hn, hhue, hnonneg⟩, hbins _ _ (by decide +kernel), hbackward⟩

/-- The character of two bytes keeps their order when the string is read backwards, so other pairs meet: the hue
goes from 180 to 120. -/
theorem reversal_of_wide_character_moves_hue :
    geneticHue "éa" = 180.0 ∧ geneticHue (String.ofList "éa".toList.reverse) = 120.0 ∧
      ¬ ∀ s : String, geneticHue s = geneticHue (String.ofList s.toList.reverse) := by
  have hforward : geneticHue "éa" = 180.0 := by decide +kernel
  have hbackward : geneticHue (String.ofList "éa".toList.reverse) = 120.0 := by decide +kernel
  refine ⟨hforward, hbackward, fun hall => ?_⟩
  have hsame := hall "éa"
  rw [hforward, hbackward] at hsame
  exact absurd hsame (by decide)

end Vivarium
