import Vivarium.Evolution.Clone
import Vivarium.Proofs.Evolution.Drawn
import Vivarium.Proofs.Random.Attempts

/-!
# What can be drawn

`Ensures` says of a computation what it can return at most. Here it is said what it can return at least: a
value is attained if there are words on which the computation returns it, whatever follows them. Those words are
then used up, so that the words for one computation and the words for the next can be put one after the
other: what is attained in a sequence is attained step by step.

Every identity is attained, every number of a range, every position, and a gene of every kind under every
identity.

Main results: `Draw.number_attains`, `Catalog.drawGene_attains`.
-/

namespace Vivarium

/-- The source with the words put before it. -/
def Source.preceded (words : List UInt64) (s : Source) : Source := { s with script := words ++ s.script }

/-- Words that precede a source may be put before it in two parts. -/
theorem Source.preceded_append (words words' : List UInt64) (s : Source) :
    s.preceded (words ++ words') = (s.preceded words').preceded words := by
  unfold preceded
  rw [List.append_assoc]

/-! ## One computation for each item -/

/-- What holds of returning a value, and passes along a sequence of two computations, passes along a list of them.
If the value for each item can be given any key, the items can be given any keys. -/
theorem exists_mapM_keyed {m : Type → Type} [Monad m] [LawfulMonad m] {α β γ : Type}
    (R : ∀ {δ : Type}, m δ → δ → Prop) (hpure : ∀ {δ : Type} (d : δ), R (pure d) d)
    (hbind : ∀ {δ ε : Type} {x : m δ} {f : δ → m ε} {d : δ} {e : ε}, R x d → R (f d) e → R (x >>= f) e)
    (key : β → γ) {f : α → m β} {xs : List α} (h : ∀ x ∈ xs, ∀ k, ∃ y, key y = k ∧ R (f x) y) :
    ∀ ks : List γ, ks.length = xs.length → ∃ ys, ys.map key = ks ∧ R (xs.mapM f) ys := by
  induction xs with
  | nil =>
    intro ks hlength
    rw [List.length_eq_zero_iff.mp hlength, List.mapM_nil]
    exact ⟨[], rfl, hpure []⟩
  | cons x xs ih =>
    intro ks hlength
    obtain ⟨k, ks, rfl⟩ := List.exists_cons_of_length_eq_add_one hlength
    -- the first item gets the first key, the others get theirs by induction
    obtain ⟨y, rfl, hy⟩ := h x List.mem_cons_self k
    obtain ⟨ys, rfl, hys⟩ := ih (fun z hz => h z (List.mem_cons_of_mem x hz)) ks (Nat.succ.inj hlength)
    rw [List.mapM_cons]
    exact ⟨y :: ys, rfl, hbind hy (hbind hys (hpure _))⟩

/-! ## Draws -/

namespace Draw

/-- There are words on which the draw returns the value, and takes no other words. -/
def Attains {α : Type} (d : Draw α) (a : α) : Prop :=
  ∃ words, ∀ s : Source, d.run (s.preceded words) = .ok (a, s)

namespace Attains

variable {α β : Type}

theorem pure (a : α) : Attains (Pure.pure a) a := ⟨[], fun _ => rfl⟩

/-- The words of the first draw are put before those of the second. -/
theorem bind {d : Draw α} {f : α → Draw β} {a : α} {b : β} (hd : Attains d a) (hf : Attains (f a) b) :
    Attains (d >>= f) b := by
  obtain ⟨words, hd⟩ := hd
  obtain ⟨words', hf⟩ := hf
  refine ⟨words ++ words', fun s => ?_⟩
  rw [Source.preceded_append, bind_run (hd _), hf s]

/-- What is attained is what can be returned. -/
theorem of_ensures {d : Draw α} {a : α} {P : α → Prop} (hd : Attains d a) (h : d.Ensures P) : P a := by
  obtain ⟨words, hd⟩ := hd
  exact h _ _ _ (hd default)

/-- What one word decides. -/
theorem of_word {d : Draw α} {a : α} (w : UInt64)
    (h : ∀ s : Source, s.next64.1 = w → d.run s = .ok (a, s.next64.2)) : Attains d a :=
  ⟨[w], fun s => h (s.preceded [w]) rfl⟩

/-- Draws for the items of a list one after the other, where each item can be given any key. -/
theorem mapM_keyed {γ : Type} (key : β → γ) {f : α → Draw β} {xs : List α}
    (h : ∀ x ∈ xs, ∀ k, ∃ y, key y = k ∧ Attains (f x) y) (ks : List γ) (hlength : ks.length = xs.length) :
    ∃ ys, ys.map key = ks ∧ Attains (xs.mapM f) ys :=
  exists_mapM_keyed Attains pure bind key h ks hlength

/-- If each item can have a value, the list can have some values. -/
theorem mapM {f : α → Draw β} {xs : List α} (h : ∀ x ∈ xs, ∃ y, Attains (f x) y) :
    ∃ ys, Attains (xs.mapM f) ys := by
  have hunkeyed : ∀ x ∈ xs, ∀ _ : Unit, ∃ y, () = () ∧ Attains (f x) y := by
    intro x hx _
    obtain ⟨y, hy⟩ := h x hx
    exact ⟨y, rfl, hy⟩
  obtain ⟨ys, -, hys⟩ := mapM_keyed (fun _ => ()) hunkeyed (List.replicate xs.length ()) List.length_replicate
  exact ⟨ys, hys⟩

end Attains

/-- Every word can be drawn. -/
theorem word64_attains (w : UInt64) : word64.Attains w := .of_word w fun s hs => by
  subst hs
  rfl

/-- The low half of a word of the script. -/
theorem word32_attains (w : UInt32) : word32.Attains w := ⟨[w.toUInt64], fun s => by
  show Except.ok (w.toUInt64.toUInt32, s) = _
  rw [UInt32.toUInt32_toUInt64]⟩

/-- So can every identity, as two words. -/
theorem ident_attains (id : Ident) : ident.Attains id :=
  .bind (word64_attains id.low) (.bind (word64_attains id.high) (.pure id))

/-- And every fraction of a word. -/
theorem fraction_attains (w : UInt64) : fraction.Attains (fractionOfWord w) :=
  .bind (word64_attains w) (.pure _)

/-! ### Numbers -/

/-- Words are taken at least up to a low half that is less than the size. -/
theorem size_le_threshold (width size : Nat) : size ≤ threshold width size + 1 := by
  unfold threshold
  rw [Nat.shiftLeft_eq]
  have hle : size ≤ size * 2 ^ (width - 1 - size.log2) := Nat.le_mul_of_pos_right size (Nat.two_pow_pos _)
  omega

/-- The least word whose product with the size reaches a number exceeds it by less than the size. -/
theorem exists_word_of_lt {n size width : Nat} (hn : n < size) (hsize : size ≤ 2 ^ width) :
    ∃ w r, w < 2 ^ width ∧ r < size ∧ w * size = r + n * 2 ^ width := by
  -- the word is `n * 2 ^ width / size`, rounded up
  have hpos : 0 < size := Nat.lt_of_le_of_lt (Nat.zero_le n) hn
  have hdiv := Nat.div_add_mod' (n * 2 ^ width + (size - 1)) size
  have hmod := Nat.mod_lt (n * 2 ^ width + (size - 1)) hpos
  have hroom : (n + 1) * 2 ^ width ≤ 2 ^ width * size := by
    rw [Nat.mul_comm]
    exact Nat.mul_le_mul_left _ hn
  rw [Nat.succ_mul] at hroom
  refine ⟨(n * 2 ^ width + (size - 1)) / size,
    (n * 2 ^ width + (size - 1)) / size * size - n * 2 ^ width, ?_, by omega, by omega⟩
  rw [Nat.div_lt_iff_lt_mul hpos]
  omega

/-- **Every number below the size is attained.** -/
theorem attemptBelow_attains {n size width : Nat} {word : Draw Nat} (hn : n < size) (hsize : size ≤ 2 ^ width)
    (hword : ∀ w, w < 2 ^ width → word.Attains w) : (attemptBelow width size word patience).Attains n := by
  obtain ⟨fuel, hfuel⟩ := patience_eq
  obtain ⟨w, r, hlt, hr, hproduct⟩ := exists_word_of_lt hn hsize
  -- the product begins with the number, and what is left of it is small enough for the word to be taken
  have hlow : w * size % twoTo width = r := by
    show w * size % 2 ^ width = r
    rw [hproduct, Nat.add_mul_mod_self_right, Nat.mod_eq_of_lt (Nat.lt_of_lt_of_le hr hsize)]
  have hhigh : w * size / twoTo width = n := by
    show w * size / 2 ^ width = n
    rw [hproduct, Nat.add_mul_div_right _ _ (Nat.two_pow_pos width),
      Nat.div_eq_of_lt (Nat.lt_of_lt_of_le hr hsize), Nat.zero_add]
  have htaken : r ≤ threshold width size := by
    have := size_le_threshold width size
    omega
  rw [hfuel, attemptBelow]
  refine (hword w hlt).bind ?_
  dsimp only
  rw [hlow, hhigh, if_pos htaken]
  exact .pure n

/-- Every number of a range can be drawn, if the words are wide enough. -/
theorem within_attains {lo hi n width : Nat} {word : Draw Nat} (hlo : lo ≤ n) (hhi : n < hi)
    (hsize : hi - lo ≤ 2 ^ width) (hword : ∀ w, w < 2 ^ width → word.Attains w) :
    (within width word lo hi).Attains n := by
  obtain ⟨k, rfl⟩ := Nat.exists_eq_add_of_le hlo
  unfold within
  rw [if_pos (by omega)]
  exact (attemptBelow_attains (by omega) hsize hword).bind (.pure _)

/-- **Every number of a range is attained**, from 64-bit words. -/
theorem number_attains {lo hi n : Nat} (hlo : lo ≤ n) (hhi : n < hi) (hsize : hi - lo ≤ 2 ^ 64) :
    (number lo hi).Attains n := by
  refine within_attains hlo hhi hsize fun w hw => ?_
  have hattained : Attains (do return (← word64).toNat) (UInt64.ofNat w).toNat :=
    .bind (word64_attains _) (.pure _)
  rwa [UInt64.toNat_ofNat_of_lt' hw] at hattained

/-- So it is from 32-bit words. -/
theorem shortNumber_attains {lo hi n : Nat} (hlo : lo ≤ n) (hhi : n < hi) (hsize : hi - lo ≤ 2 ^ 32) :
    (shortNumber lo hi).Attains n := by
  refine within_attains hlo hhi hsize fun w hw => ?_
  have hattained : Attains (do return (← word32).toNat) (UInt32.ofNat w).toNat :=
    .bind (word32_attains _) (.pure _)
  rwa [UInt32.toNat_ofNat_of_lt' hw] at hattained

/-- So can every place of a program. -/
theorem position_attains {len i : Nat} (hi : i < len) (hlen : len ≤ 2 ^ 64) : (position len).Attains i :=
  number_attains (Nat.zero_le i) hi hlen

/-- The lower end of a range of reals is attained, if there is room for it after rounding. -/
theorem real_attains {lo hi : Float} (hlt : lo < hi) (hfinite : (hi - lo).isFinite = true)
    (hfirst : mantissaOfWord 0 * (hi - lo) + lo < hi) :
    (real lo hi).Attains (mantissaOfWord 0 * (hi - lo) + lo) := by
  obtain ⟨fuel, hfuel⟩ := patience_eq
  unfold real
  rw [if_pos hlt, if_pos hfinite, hfuel]
  -- the word zero has the least mantissa, and one attempt is enough
  refine .of_word 0 fun s hs => ?_
  rw [attemptReal_succ, hs, if_pos hfirst]

end Draw

/-! ## Builds -/

namespace Build

/-- There are words on which the build returns the value, and is not refused. -/
def Attains {α : Type} (b : Build α) (a : α) : Prop := Draw.Attains b.run (.ok a)

namespace Attains

variable {α β : Type}

theorem pure (a : α) : Attains (Pure.pure a) a := Draw.Attains.pure (Except.ok a)

/-- What can be drawn can be drawn inside a build. -/
theorem lift {d : Draw α} {a : α} (h : d.Attains a) : Attains (liftM d) a := by
  obtain ⟨words, hd⟩ := h
  exact ⟨words, fun s => lift_run (hd s)⟩

/-- What two builds can return one after the other, their sequence can return. -/
theorem bind {b : Build α} {f : α → Build β} {a : α} {c : β} (hb : Attains b a) (hf : Attains (f a) c) :
    Attains (b >>= f) c := by
  unfold Attains
  rw [ExceptT.run_bind]
  exact Draw.Attains.bind hb hf

/-- What can be returned has what is ensured of it. -/
theorem of_ensures {b : Build α} {a : α} {P : α → Prop} (hb : Attains b a) (h : b.Ensures P) : P a := by
  obtain ⟨words, hb⟩ := hb
  obtain ⟨_, heq, hP⟩ := h _ _ _ (hb default)
  cases heq
  exact hP

/-- The first build of a sequence returns its value on the same source. -/
theorem run_bind {b : Build α} {f : α → Build β} {a : α} {c : β} (hb : Attains b a) (hf : Attains (f a) c) :
    ∃ s, (∃ s', b.run.run s = .ok (.ok a, s')) ∧ ∃ s', (b >>= f).run.run s = .ok (.ok c, s') := by
  obtain ⟨words, hb⟩ := hb
  obtain ⟨words', hf⟩ := hf
  refine ⟨((default : Source).preceded words').preceded words, ⟨_, hb _⟩, default, ?_⟩
  rw [Build.bind_run (hb _)]
  exact hf default

/-- Builds for the items of a list one after the other, where each item can be given any key. -/
theorem mapM_keyed {γ : Type} (key : β → γ) {f : α → Build β} {xs : List α}
    (h : ∀ x ∈ xs, ∀ k, ∃ y, key y = k ∧ Attains (f x) y) (ks : List γ) (hlength : ks.length = xs.length) :
    ∃ ys, ys.map key = ks ∧ Attains (xs.mapM f) ys :=
  exists_mapM_keyed Attains pure bind key h ks hlength

end Attains

end Build

/-! ## Genes -/

namespace Catalog

/-- Of every kind an instruction is attained, for programs of any length that a position can be drawn in. -/
theorem drawInstruction_attains {index len : Nat} (hindex : index < catalogLength) (hlen : len ≤ 2 ^ 64) :
    ∃ i, Build.Attains (drawInstruction index len) i := by
  have hgoal : (Draw.position (max len 1)).Attains 0 :=
    Draw.position_attains (by omega) (Nat.max_le.mpr ⟨hlen, by decide⟩)
  have jump (c : Condition) : ∃ i, Build.Attains
      (do return Instruction.jump c (← (Draw.position (max len 1) : Draw Nat))) i :=
    ⟨_, .bind (.lift hgoal) (.pure _)⟩
  -- numbers in an instruction are drawn from fixed ranges, whose lower ends will do
  unfold drawInstruction
  split
  · refine ⟨_, .bind (.lift (Draw.real_attains ?_ ?_ ?_)) (.pure _)⟩ <;> decide +kernel
  · exact ⟨_, .pure _⟩
  · refine ⟨_, .bind (.lift (Draw.real_attains ?_ ?_ ?_)) (.pure _)⟩ <;> decide +kernel
  · exact ⟨_, .pure _⟩
  · exact ⟨_, .pure _⟩
  · exact ⟨_, .pure _⟩
  · exact ⟨_, .pure _⟩
  · exact ⟨_, .pure _⟩
  · exact jump _
  · exact jump _
  · exact jump _
  · obtain ⟨i, hi⟩ := jump (.hungry (Draw.fractionOfWord 0))
    exact ⟨i, .bind (.lift (Draw.fraction_attains 0)) hi⟩
  · obtain ⟨i, hi⟩ := jump (.large (Float.ofNat 100))
    exact ⟨i, .bind (.lift (Draw.shortNumber_attains (n := 100) (by decide) (by decide) (by decide))) hi⟩
  · exact ⟨_, .pure _⟩
  · exact ⟨_, .pure _⟩
  · exact ⟨_, .pure _⟩
  -- the sixteen kinds above are all that lie below the catalog's end
  · unfold catalogLength at hindex
    interval_cases index <;> contradiction

/-- **Of every kind a gene is attained under every identity.** -/
theorem drawGene_attains {index len : Nat} (hindex : index < catalogLength) (hlen : len ≤ 2 ^ 64) (id : Ident) :
    ∃ g, g.id = id ∧ Build.Attains (drawGene index len) g := by
  obtain ⟨rule, -, hrule⟩ := rule?_of_lt hindex
  obtain ⟨i, hi⟩ := drawInstruction_attains hindex hlen
  unfold drawGene
  rw [hrule]
  refine ⟨⟨id, index, rule.timeCost, i⟩, rfl, ?_⟩
  exact .bind (.pure rule) (.bind hi (.bind (.lift (Draw.ident_attains id)) (.pure _)))

end Catalog

/-- A copy can have any identity. -/
theorem Gene.copy_attains (g : Gene) (id : Ident) : g.copy.Attains { g with id } :=
  (Draw.ident_attains id).bind (.pure _)

end Vivarium
