import Mathlib.Algebra.BigOperators.Group.Finset.Basic
import Mathlib.Data.Fintype.Prod
import Mathlib.Data.List.Lattice
import Vivarium.Proofs.Kinship.Hue
import Vivarium.Proofs.Kinship.Memo
import Vivarium.Proofs.Scalar.Naturals

/-!
# The overlap of two strings

What can be struck out of one string's bigrams by those of another is the intersection of the two multisets.
The coefficient is therefore what it is named after: each bigram counts as often as it occurs in both
strings, twice their number is at most the number of places, and all of it exactly if the strings have the
same bigrams equally often. Equal strings are no exception to the formula, although they are not counted.

Main result: `similarity_is_the_overlap_of_bigrams`.
-/

namespace Vivarium

/-! ## Striking out -/

section Overlap

variable {α : Type} [DecidableEq α] (xs ys : List α)

/-- What is struck out is the common part, whichever list is struck out of the other. -/
theorem sharedCount_eq_card_inter : sharedCount xs ys = ((xs : Multiset α) ∩ ys).card := by
  rw [sharedCount_eq, Multiset.inter_comm]
  rfl

/-- **Each item counts as often as it occurs in both lists.** -/
theorem sharedCount_eq_sum [Fintype α] [equality : BEq α] [LawfulBEq α] :
    sharedCount xs ys = ∑ x, min (xs.count x) (ys.count x) := by
  obtain rfl : equality = instBEqOfDecidableEq := lawful_beq_subsingleton _ _
  rw [sharedCount_eq_card_inter, ← Multiset.sum_count_eq_card fun x _ => Finset.mem_univ x]
  refine Finset.sum_congr rfl fun x _ => ?_
  rw [Multiset.count_inter, Multiset.coe_count, Multiset.coe_count]

theorem sharedCount_le_left : sharedCount xs ys ≤ xs.length := by
  rw [sharedCount_eq_card_inter]
  exact Multiset.card_le_card Multiset.inter_le_left

theorem sharedCount_le_right : sharedCount xs ys ≤ ys.length := by
  rw [sharedCount_eq_card_inter]
  exact Multiset.card_le_card Multiset.inter_le_right

theorem two_mul_sharedCount_le : 2 * sharedCount xs ys ≤ xs.length + ys.length := by
  have hleft := sharedCount_le_left xs ys
  have hright := sharedCount_le_right xs ys
  omega

/-- **Only lists of the same items strike each other out** completely. -/
theorem two_mul_sharedCount_eq_iff :
    2 * sharedCount xs ys = xs.length + ys.length ↔ (xs : Multiset α) = ys := by
  have hleft := sharedCount_le_left xs ys
  have hright := sharedCount_le_right xs ys
  rw [sharedCount_eq_card_inter] at *
  constructor
  · intro hall
    -- nothing of either list is left over
    have hxs : (xs : Multiset α) ∩ ys = xs := Multiset.eq_of_le_of_card_le Multiset.inter_le_left (by
      rw [Multiset.coe_card]
      omega)
    have hys : (xs : Multiset α) ∩ ys = ys := Multiset.eq_of_le_of_card_le Multiset.inter_le_right (by
      rw [Multiset.coe_card]
      omega)
    exact hxs.symm.trans hys
  · intro heq
    have hlength : xs.length = ys.length := congrArg Multiset.card heq
    have hself : (xs : Multiset α) ∩ xs = xs :=
      le_antisymm Multiset.inter_le_left (Multiset.le_inter le_rfl le_rfl)
    rw [← heq, hself, Multiset.coe_card]
    omega

theorem sharedCount_eq_zero_iff : sharedCount xs ys = 0 ↔ ∀ x ∈ xs, x ∉ ys := by
  rw [sharedCount_eq_card_inter, Multiset.card_eq_zero, Multiset.inter_eq_zero_iff_disjoint,
    Multiset.disjoint_left]
  rfl

end Overlap

/-! ## Bigrams -/

instance fintypeByte : Fintype UInt8 :=
  .ofBijective UInt8.ofFin ⟨fun _ _ h => by simpa using congrArg UInt8.toFin h, fun b => ⟨b.toFin, by simp⟩⟩

/-- Two bytes that follow one another. -/
abbrev Bigram := UInt8 × UInt8

/-- The bigrams of a string, in their order. -/
def bigrams (s : String) : List Bigram := adjacentPairs s.toUTF8.toList

/-- How many bigrams the second string strikes out of the first one's. -/
def sharedBigrams (a b : String) : Nat := sharedCount (bigrams a) (bigrams b)

theorem length_bigrams (s : String) : (bigrams s).length = s.utf8ByteSize - 1 := by
  unfold bigrams adjacentPairs
  rw [List.length_zip, List.length_tail, length_bytes]
  omega

/-! ## The formula -/

/-- The coefficient of two strings by their bigrams alone. -/
def bigramOverlap (a b : String) : Float :=
  2.0 * Float.ofNat (sharedBigrams a b) / Float.ofNat ((a.utf8ByteSize - 1) + (b.utf8ByteSize - 1))

theorem diceSimilarity_of_ne {a b : String} (hne : a ≠ b) (ha : 2 ≤ a.utf8ByteSize)
    (hb : 2 ≤ b.utf8ByteSize) : diceSimilarity a b = bigramOverlap a b := by
  unfold diceSimilarity
  rw [if_neg hne]
  dsimp only
  rw [length_bytes, length_bytes, if_neg (by simp; omega)]
  unfold diceOfBytes
  rw [length_bytes, length_bytes]
  rfl

/-- A string that is struck out by itself is struck out completely, and the formula yields one. -/
theorem bigramOverlap_self {a : String} (ha : 2 ≤ a.utf8ByteSize) (hfits : a.utf8ByteSize < 2 ^ 63) :
    bigramOverlap a a = 1.0 := by
  have hall : 2 * sharedBigrams a a = _ := (two_mul_sharedCount_eq_iff (bigrams a) (bigrams a)).mpr rfl
  rw [length_bigrams] at hall
  have hshared : sharedBigrams a a = a.utf8ByteSize - 1 := by omega
  unfold bigramOverlap
  rw [hshared]
  exact Double.twice_ofNat_div (by omega) (by omega)

/-- **Similarity is the overlap of the strings' bigrams.** A bigram is shared as often as it occurs in both
strings, so the order of the strings does not matter, all bigrams are shared if and only if the strings have the
same ones equally often, and none is if and only if they have none in common. The answer to equal strings, which
are not counted, is what counting would yield; no string has so many bytes that a machine word could not hold
their number. -/
theorem similarity_is_the_overlap_of_bigrams {a b : String} (ha : 2 ≤ a.utf8ByteSize)
    (hb : 2 ≤ b.utf8ByteSize) :
    sharedBigrams a b = ∑ g : Bigram, min ((bigrams a).count g) ((bigrams b).count g) ∧
      (a ≠ b → diceSimilarity a b = bigramOverlap a b) ∧
      (a = b → a.utf8ByteSize < 2 ^ 63 → diceSimilarity a b = 1.0 ∧ bigramOverlap a b = 1.0) ∧
      diceSimilarity a b = diceSimilarity b a ∧
      2 * sharedBigrams a b ≤ (a.utf8ByteSize - 1) + (b.utf8ByteSize - 1) ∧
      (2 * sharedBigrams a b = (a.utf8ByteSize - 1) + (b.utf8ByteSize - 1) ↔
        (bigrams a : Multiset Bigram) = bigrams b) ∧
      (sharedBigrams a b = 0 ↔ ∀ g ∈ bigrams a, g ∉ bigrams b) := by
  refine ⟨sharedCount_eq_sum _ _, fun hne => diceSimilarity_of_ne hne ha hb, ?_, diceSimilarity_comm a b,
    ?_, ?_, sharedCount_eq_zero_iff _ _⟩
  · rintro rfl hfits
    exact ⟨if_pos rfl, bigramOverlap_self ha hfits⟩
  · rw [← length_bigrams, ← length_bigrams]
    exact two_mul_sharedCount_le _ _
  · rw [← length_bigrams, ← length_bigrams]
    exact two_mul_sharedCount_eq_iff _ _

/-- The strings share two of the three bigrams that each of them has. -/
theorem similarity_is_the_overlap_of_bigrams_abcd :
    2 ≤ "ABCD".utf8ByteSize ∧ 2 ≤ "ABCE".utf8ByteSize ∧ "ABCD".utf8ByteSize < 2 ^ 63 ∧
      ∑ g : Bigram, min ((bigrams "ABCD").count g) ((bigrams "ABCE").count g) = 2 ∧
      diceSimilarity "ABCD" "ABCE" = 2.0 * Float.ofNat 2 / Float.ofNat 6 ∧
      bigramOverlap "ABCD" "ABCD" = 1.0 := by
  have hsize : 2 ≤ "ABCD".utf8ByteSize := by decide
  have hsize' : 2 ≤ "ABCE".utf8ByteSize := by decide
  obtain ⟨hshared, hformula, -⟩ := similarity_is_the_overlap_of_bigrams hsize hsize'
  obtain ⟨-, -, hsame, -⟩ := similarity_is_the_overlap_of_bigrams hsize hsize
  have htwo : sharedBigrams "ABCD" "ABCE" = 2 := by decide +kernel
  have hdice := hformula (by decide)
  unfold bigramOverlap at hdice
  rw [htwo] at hdice
  exact ⟨hsize, hsize', by decide, hshared ▸ htwo, hdice, (hsame rfl (by decide)).2⟩

end Vivarium
