import Vivarium.Proofs.Computation
import Vivarium.Proofs.Evolution.Drawn
import Vivarium.Proofs.Random.Attempts
import Vivarium.World.Basic

/-!
# Computations that do not break off

A computation breaks off at a fault. One of the faults is of another kind than the rest: a draw that is
repeated until it is accepted carries a bound on its repetitions, and is given up when it has used them up.
No condition on what is drawn from excludes that, so a computation is called steady if it does not break
off in any other way: all its ranges hold something, their widths are finite, its chances are chances, its
clamps are between bounds that are in order, and its counters and sums fit.

Steadiness follows the shape of a computation, one rule for each way of putting computations together. What
comes second in a sequence only has to be steady for the values that the first can return, which is what
`Ensures` and `Yields` speak of.
-/

namespace Vivarium

/-- The computation does not break off, unless a draw is given up. -/
def Steady {α : Type} (x : Except Fault α) : Prop := ∀ cause, x = .error cause → cause = .exhausted

namespace Steady

variable {α β : Type}

theorem ok {a : α} : Steady (.ok a : Except Fault α) := nofun

/-- In a sequence the second has to be steady only for what the first can return. -/
theorem bind {x : Except Fault α} {f : α → Except Fault β} (hx : Steady x)
    (hf : ∀ a, x = .ok a → Steady (f a)) : Steady (x >>= f) := by
  cases x with
  | ok a => exact hf a rfl
  | error cause =>
    intro cause' hcause
    cases hcause
    exact hx cause rfl

/-- Each branch may use the condition that leads to it. -/
theorem ite {c : Prop} [Decidable c] {x y : Except Fault α} (hx : c → Steady x) (hy : ¬ c → Steady y) :
    Steady (if c then x else y) := by
  split
  · exact hx ‹_›
  · exact hy ‹_›

end Steady

/-! ## Draws -/

namespace Draw

/-- On every source, the draw does not break off, unless it is given up. -/
def Steady {α : Type} (d : Draw α) : Prop := ∀ s, Vivarium.Steady (d.run s)

namespace Steady

variable {α β : Type}

theorem pure {a : α} : Steady (Pure.pure a : Draw α) := fun _ => .ok

/-- A draw that gives up is steady, since that is the one fault that is not counted. -/
theorem exhausted : Steady (throw .exhausted : Draw α) := by
  intro s cause hcause
  cases hcause
  rfl

/-- A computation that draws nothing is as steady inside a draw as alone. -/
theorem lift {x : Except Fault α} (h : Vivarium.Steady x) : Steady (liftM x : Draw α) := by
  intro s
  rw [show (liftM x : Draw α).run s = x >>= fun a => .ok (a, s) from rfl]
  exact h.bind fun _ _ => .ok

/-- What follows a draw has to be steady for the values that the draw can return. -/
theorem bind {d : Draw α} {f : α → Draw β} {P : α → Prop} (hd : Steady d) (hvalues : Ensures d P)
    (hf : ∀ a, P a → Steady (f a)) : Steady (d >>= f) := by
  intro s
  rw [StateT.run_bind]
  exact (hd s).bind fun (a, s') ha => hf a (hvalues s a s' ha) s'

theorem ite {c : Prop} [Decidable c] {d e : Draw α} (hd : c → Steady d) (he : ¬ c → Steady e) :
    Steady (if c then d else e) := by
  split
  · exact hd ‹_›
  · exact he ‹_›

/-- Steady draws made for the items of a list one after the other. -/
theorem mapM {f : α → Draw β} {xs : List α} (h : ∀ x ∈ xs, Steady (f x)) : Steady (xs.mapM f) :=
  (mapM_of_rules (fun _ d P => Steady d ∧ Ensures d P) (fun hc => ⟨.pure, .pure hc⟩)
    (fun hd hf => ⟨.bind hd.1 hd.2 fun c hc => (hf c hc).1, .bind hd.2 fun c hc => (hf c hc).2⟩)
    fun x hx => ⟨h x hx, .any⟩).1

end Steady

/-- The source never ends, so a word is always to be had. -/
theorem word64_steady : word64.Steady := fun _ => .ok

theorem word32_steady : word32.Steady := fun _ => .ok

/-- An identity is two words. -/
theorem ident_steady : ident.Steady :=
  .bind word64_steady .any fun _ _ => .bind word64_steady .any fun _ _ => .pure

/-- A fraction is a word that is scaled down. -/
theorem fraction_steady : fraction.Steady := .bind word64_steady .any fun _ _ => .pure

/-! ### Ranges that hold something -/

/-- Words are drawn until one is accepted, and given up after as many as are allowed. -/
theorem attemptBelow_steady {width size : Nat} {word : Draw Nat} (hword : word.Steady) :
    ∀ fuel, (attemptBelow width size word fuel).Steady
  | 0 => .exhausted
  | fuel + 1 => by
    unfold attemptBelow
    exact .bind hword .any fun w _ => .ite (fun _ => .pure) fun _ => attemptBelow_steady hword fuel

/-- A number can be drawn from every range that holds one. -/
theorem within_steady {width lo hi : Nat} {word : Draw Nat} (hword : word.Steady) (h : lo < hi) :
    (within width word lo hi).Steady := by
  unfold within
  rw [if_pos h]
  exact .bind (attemptBelow_steady hword _) .any fun _ _ => .pure

theorem number_steady {lo hi : Nat} (h : lo < hi) : (number lo hi).Steady :=
  within_steady (.bind word64_steady .any fun _ _ => .pure) h

theorem shortNumber_steady {lo hi : Nat} (h : lo < hi) : (shortNumber lo hi).Steady :=
  within_steady (.bind word32_steady .any fun _ _ => .pure) h

theorem position_steady {len : Nat} (h : 0 < len) : (position len).Steady := number_steady h

/-- A real number is drawn again as long as it rounds to the upper end. -/
theorem attemptReal_steady (lo hi scale : Float) : ∀ fuel, (attemptReal lo hi scale fuel).Steady
  | 0 => .exhausted
  | fuel + 1 => by
    unfold attemptReal
    exact .bind word64_steady .any fun _ _ => .ite (fun _ => .pure) fun _ =>
      attemptReal_steady lo hi scale fuel

/-- A real number can be drawn from a range whose ends are in order and whose width is finite. -/
theorem real_steady {lo hi : Float} (h : lo < hi) (hfinite : (hi - lo).isFinite = true) :
    (real lo hi).Steady := by
  unfold real
  rw [if_pos h, if_pos hfinite]
  exact attemptReal_steady _ _ _ _

/-- With both ends included the range may be a point, but its scale must be finite. -/
theorem closedReal_steady {lo hi : Float} (h : lo ≤ hi)
    (hfinite : ((hi - lo) / largestMantissa).isFinite = true) : (closedReal lo hi).Steady := by
  unfold closedReal
  rw [if_pos h, if_pos hfinite]
  exact .bind word64_steady .any fun _ _ => .pure

/-- A chance has to be a probability below one. -/
theorem chance_steady {p : Float} (h : 0.0 ≤ p ∧ p < 1.0) : (chance p).Steady := by
  unfold chance
  rw [if_pos h]
  exact .bind word64_steady .any fun _ _ => .pure

/-- What settles does not break off in any other way than by being given up. -/
theorem Settles.steady {α : Type} {size : Nat} {d : Draw α} (h : d.Settles size) : d.Steady := by
  intro s cause hcause
  rcases h s with ⟨a, k, hrun⟩ | ⟨hgiven, -⟩
  · cases hrun.symm.trans hcause
  · cases hgiven.symm.trans hcause
    rfl

/-- A heading can always be drawn. -/
theorem heading_steady : (real 0.0 fullTurn).Steady :=
  real_steady (by decide +kernel) (by decide +kernel)

end Draw

/-! ## Builds -/

/-- On every source, the build does not break off, unless a draw is given up. It may be refused. -/
def Build.Steady {α : Type} (b : Build α) : Prop := Draw.Steady b.run

namespace Build

namespace Steady

variable {α β : Type}

theorem pure {a : α} : Steady (Pure.pure a : Build α) := Draw.Steady.pure

/-- A refusal is not a fault. -/
theorem refused {cause : Refusal} : Steady (throw cause : Build α) := Draw.Steady.pure

/-- To give up inside a build is steady too. -/
theorem exhausted : Steady (throwThe Fault .exhausted : Build α) := by
  intro s cause hcause
  cases hcause
  rfl

/-- A draw is as steady inside a build as alone. -/
theorem lift {d : Draw α} (h : d.Steady) : Steady (liftM d : Build α) := by
  unfold Steady
  rw [show (liftM d : Build α).run = Except.ok <$> d from rfl, map_eq_pure_bind]
  exact .bind h .any fun _ _ => .pure

/-- What follows a build has to be steady for the values that it can return. -/
theorem bind {b : Build α} {f : α → Build β} {P : α → Prop} (hb : Steady b) (hvalues : Yields b P)
    (hf : ∀ a, P a → Steady (f a)) : Steady (b >>= f) := by
  intro s
  rw [ExceptT.run_bind, StateT.run_bind]
  refine (hb s).bind fun (x, s') hx => ?_
  cases x with
  | error cause => exact .ok
  | ok a => exact hf a (hvalues s a s' hx) s'

theorem ite {c : Prop} [Decidable c] {b d : Build α} (hb : c → Steady b) (hd : ¬ c → Steady d) :
    Steady (if c then b else d) := by
  split
  · exact hb ‹_›
  · exact hd ‹_›

/-- Steady builds made for the items of a list one after the other. -/
theorem mapM {f : α → Build β} {xs : List α} (h : ∀ x ∈ xs, Steady (f x)) : Steady (xs.mapM f) :=
  (mapM_of_rules (fun _ b P => Steady b ∧ Yields b P) (fun hc => ⟨.pure, .pure hc⟩)
    (fun hb hf => ⟨.bind hb.1 hb.2 fun c hc => (hf c hc).1, .bind hb.2 fun c hc => (hf c hc).2⟩)
    fun x hx => ⟨h x hx, .any⟩).1

end Steady

end Build

/-! ## Outcomes -/

namespace Outcome

/-- The computation does not break off, unless a draw is given up. -/
def Steady {α : Type} (x : Outcome α) : Prop := ∀ cause, x = .error (.fault cause) → cause = .exhausted

namespace Steady

variable {α β : Type}

theorem pure {a : α} : Steady (Pure.pure a : Outcome α) := nofun

/-- A refusal is not a fault. -/
theorem refused {cause : Refusal} : Steady (throw (.refused cause) : Outcome α) := nofun

/-- What may only break off is as steady among the computations that may also be refused. -/
theorem ofFault {x : Except Fault α} (h : Vivarium.Steady x) : Steady (Outcome.ofFault x) := by
  cases x with
  | ok a => exact nofun
  | error cause =>
    intro cause' hcause
    cases hcause
    exact h cause rfl

/-- In a sequence the second has to be steady only for what the first can return. -/
theorem bind {x : Outcome α} {f : α → Outcome β} (hx : Steady x) (hf : ∀ a, x = .ok a → Steady (f a)) :
    Steady (x >>= f) := by
  cases x with
  | ok a => exact hf a rfl
  | error failure =>
    intro cause hcause
    cases hcause
    exact hx cause rfl

theorem ite {c : Prop} [Decidable c] {x y : Outcome α} (hx : c → Steady x) (hy : ¬ c → Steady y) :
    Steady (if c then x else y) := by
  split
  · exact hx ‹_›
  · exact hy ‹_›

end Steady

end Outcome

/-! ## The catalog -/

namespace Catalog

/-- All operands are drawn from ranges that are not empty: those of the catalog, and, of a jump, the places of a
program that is being drawn. -/
theorem drawInstruction_steady (index len : Nat) : (drawInstruction index len).Steady := by
  have htarget : (Draw.position (max len 1)).Steady := Draw.position_steady (by omega)
  have hpower : (Draw.real minPower maxPower).Steady :=
    Draw.real_steady (by decide +kernel) (by decide +kernel)
  have hjump (c : Condition) : Build.Steady (do
      return Instruction.jump c (← (Draw.position (max len 1) : Draw Nat))) :=
    .bind (.lift htarget) .any fun _ _ => .pure
  unfold drawInstruction
  -- one case for each index, in the order of the catalog
  split
  · exact .bind (.lift hpower) .any fun _ _ => .pure
  · exact .pure
  · exact .bind (.lift Draw.heading_steady) .any fun _ _ => .pure
  · exact .pure
  · exact .pure
  · exact .pure
  · exact .pure
  · exact .pure
  · exact hjump _
  · exact hjump _
  · exact hjump _
  · exact .bind (.lift Draw.fraction_steady) .any fun _ _ => hjump _
  · exact .bind (.lift (Draw.shortNumber_steady (by decide))) .any fun _ _ => hjump _
  · exact .pure
  · exact .pure
  · exact .pure
  · exact .refused

/-- A gene is drawn as an identity and an instruction with its time. -/
theorem drawGene_steady (index len : Nat) : (drawGene index len).Steady := by
  unfold drawGene
  refine .bind (P := fun _ => True) ?_ .any fun rule _ => ?_
  · cases rule? index with
    | ok rule => exact .pure
    | error cause => exact .refused
  · refine .bind (drawInstruction_steady index len) .any fun _ _ => ?_
    exact .bind (.lift Draw.ident_steady) .any fun _ _ => .pure

/-- The index of a gene is drawn from a part of the catalog that is not empty. -/
theorem drawAnyGene_steady (first : Bool) (len : Nat) : (drawAnyGene first len).Steady := by
  have hkinds : 0 < (if first then firstGeneration else List.range catalogLength).length := by
    cases first <;> decide
  unfold drawAnyGene
  exact .bind (.lift (Draw.position_steady hkinds)) .any fun _ _ => drawGene_steady _ _

end Catalog

namespace Program

/-- To look at the length of what was drawn may refuse it, and draws nothing. -/
theorem ofDrawn_steady (genes : List Gene) : (ofDrawn genes).Steady := by
  unfold ofDrawn
  split
  · exact .pure
  · exact .refused

/-- A program is drawn gene by gene. -/
theorem random_steady (first : Bool) (len : Nat) : (random first len).Steady := by
  unfold random
  exact .bind (.mapM fun _ _ => Catalog.drawAnyGene_steady first len) .any fun genes _ => ofDrawn_steady genes

end Program

end Vivarium
