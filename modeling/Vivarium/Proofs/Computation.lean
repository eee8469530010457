import Mathlib.Data.List.Forall2
import Vivarium.Gene.Catalog

/-!
# What computations return

A draw is a function of the source; a build may also be refused. The statements of this library hold on
every source, so a computation is judged by what it can return at all: `Draw.Ensures d P` says that each
value that `d` returns has the property `P`, and `Build.Ensures b P` that `b`, whenever it does not break
off, is not refused and returns a value with the property `P`. Both judgements follow the shape of the
computation: one rule for each way of putting computations together, and one for each primitive draw.
-/

namespace Vivarium

/-! ## Lists related item by item -/

section Forall₂

variable {α β : Type} {R : α → β → Prop}

/-- Of two lists that are related item by item, each item of the second has its counterpart in the first. -/
theorem forall₂_mem_right {xs : List α} {ys : List β} (h : List.Forall₂ R xs ys) {y : β}
    (hy : y ∈ ys) : ∃ x ∈ xs, R x y := by
  induction h with
  | nil => cases hy
  | @cons x z xs ys hxz _ ih =>
    rcases List.mem_cons.mp hy with rfl | hmem
    · exact ⟨x, List.mem_cons_self, hxz⟩
    · obtain ⟨x', hx', hR⟩ := ih hmem
      exact ⟨x', List.mem_cons_of_mem x hx', hR⟩

/-- The counterpart stands at the same place. -/
theorem forall₂_getElem?_right {xs : List α} {ys : List β} (h : List.Forall₂ R xs ys) {i : Nat}
    {y : β} (hy : ys[i]? = some y) : ∃ x, xs[i]? = some x ∧ R x y := by
  -- the induction is on the pairing, over the place that is looked at
  induction h generalizing i with
  | nil => cases hy
  | @cons x z xs ys hxz _ ih =>
    cases i with
    | zero =>
      cases hy
      exact ⟨x, rfl, hxz⟩
    | succ i =>
      rw [List.getElem?_cons_succ] at hy ⊢
      exact ih hy

/-- Related items that agree in what is read off them. -/
theorem forall₂_map_eq {γ : Type} {f : α → γ} {g : β → γ} {xs : List α} {ys : List β}
    (h : List.Forall₂ R xs ys) (hfg : ∀ x y, R x y → g y = f x) : ys.map g = xs.map f := by
  induction h with
  | nil => rfl
  | cons hxy _ ih => rw [List.map_cons, List.map_cons, hfg _ _ hxy, ih]

end Forall₂

/-! ## Taking binds apart -/

/-- A computation that did not break off is a sequence of computations that did not. -/
theorem except_bind_inv {ε α β : Type} {x : Except ε α} {f : α → Except ε β} {b : β}
    (h : (x >>= f) = .ok b) : ∃ a, x = .ok a ∧ f a = .ok b := by
  cases x with
  | error e => cases h
  | ok a => exact ⟨a, rfl, h⟩

/-- A sequence of computations that broke off did so in the first or in the second. -/
theorem except_error_inv {ε α β : Type} {x : Except ε α} {f : α → Except ε β} {e : ε}
    (h : (x >>= f) = .error e) : x = .error e ∨ ∃ a, x = .ok a ∧ f a = .error e := by
  cases x with
  | ok a => exact .inr ⟨a, rfl, h⟩
  | error e' =>
    cases h
    exact .inl rfl

/-- A computation whose value was tested did not break off. -/
theorem except_any_inv {ε α : Type} {x : Except ε α} {test : α → Bool}
    (h : x.toOption.any test = true) : ∃ a, x = .ok a ∧ test a = true := by
  cases x with
  | error e => cases h
  | ok a => exact ⟨a, rfl, h⟩

/-- **One computation for each item of a list.** A judgement on computations and their values that holds of
those that only return, and of one after another, holds of computations made for the items of a list in their
order: each value is related to its item as the item's computation says. -/
theorem mapM_of_rules {m : Type → Type} [Monad m] [LawfulMonad m] (J : (γ : Type) → m γ → (γ → Prop) → Prop)
    (hpure : ∀ {γ : Type} {c : γ} {P : γ → Prop}, P c → J γ (pure c) P)
    (hbind : ∀ {γ δ : Type} {x : m γ} {f : γ → m δ} {P : γ → Prop} {Q : δ → Prop}, J γ x P →
      (∀ c, P c → J δ (f c) Q) → J δ (x >>= f) Q)
    {α β : Type} {f : α → m β} {R : α → β → Prop} :
    ∀ {xs : List α}, (∀ x ∈ xs, J β (f x) (R x)) → J (List β) (xs.mapM f) (List.Forall₂ R xs)
  | [], _ => by
    rw [List.mapM_nil]
    exact hpure .nil
  | x :: xs, h => by
    rw [List.mapM_cons]
    -- the first element, then the others by recursion, and then their results are put together
    refine hbind (h x List.mem_cons_self) fun y hy => ?_
    refine hbind (mapM_of_rules J hpure hbind fun z hz => h z (List.mem_cons_of_mem x hz)) fun ys hys => ?_
    exact hpure (.cons hy hys)

namespace Draw

/-- A draw that is made of two returned because both did, the second on what the first left of the source. -/
theorem bind_inv {α β : Type} {d : Draw α} {f : α → Draw β} {s s'' : Source} {b : β}
    (h : (d >>= f).run s = .ok (b, s'')) :
    ∃ a s', d.run s = .ok (a, s') ∧ (f a).run s' = .ok (b, s'') := by
  rw [StateT.run_bind] at h
  obtain ⟨⟨a, s'⟩, hd, hf⟩ := except_bind_inv h
  exact ⟨a, s', hd, hf⟩

/-- What follows a draw that has returned goes on with its value. -/
theorem bind_run {α β : Type} {d : Draw α} {s s' : Source} {a : α} (h : d.run s = .ok (a, s'))
    (f : α → Draw β) : (d >>= f).run s = (f a).run s' := by
  rw [StateT.run_bind, h]
  rfl

/-! ## Draws -/

/-- Every value that the draw returns, on whatever source, has the property. -/
def Ensures {α : Type} (d : Draw α) (P : α → Prop) : Prop :=
  ∀ s a s', d.run s = .ok (a, s') → P a

namespace Ensures

variable {α β : Type} {P Q : α → Prop}

/-- What is returned without a draw has what is known of it. -/
theorem pure {a : α} (h : P a) : Ensures (Pure.pure a) P := by
  intro s b s' hrun
  rw [StateT.run_pure] at hrun
  cases hrun
  exact h

/-- A draw that breaks off returns nothing, so anything may be said of what it returns. -/
theorem throw {cause : Fault} : Ensures (MonadExcept.throw cause : Draw α) P := by
  intro s a s' hrun
  cases hrun

/-- What is known of the first value may be used for the second. -/
theorem bind {d : Draw α} {f : α → Draw β} {R : β → Prop} (hd : Ensures d P)
    (hf : ∀ a, P a → Ensures (f a) R) : Ensures (d >>= f) R := by
  intro s b s'' hrun
  obtain ⟨a, s', ha, hb⟩ := bind_inv hrun
  exact hf a (hd s a s' ha) s' b s'' hb

/-- What is ensured may be weakened. -/
theorem mono {d : Draw α} (hd : Ensures d P) (himp : ∀ a, P a → Q a) : Ensures d Q :=
  fun s a s' hrun => himp a (hd s a s' hrun)

/-- Nothing is known of the value. -/
theorem any {d : Draw α} : Ensures d fun _ => True := fun _ _ _ _ => trivial

/-- A computation without draws. -/
theorem lift {x : Except Fault α} (h : ∀ a, x = .ok a → P a) :
    Ensures (liftM x : Draw α) P := by
  intro s a s' hrun
  rw [show (liftM x : Draw α).run s = x >>= fun a => .ok (a, s) from rfl] at hrun
  obtain ⟨b, hx, hb⟩ := except_bind_inv hrun
  cases hb
  exact h a hx

/-- Each branch may use the condition that leads to it. -/
theorem ite {c : Prop} [Decidable c] {d e : Draw α} (hd : c → Ensures d P)
    (he : ¬ c → Ensures e P) : Ensures (if c then d else e) P := by
  split
  · exact hd ‹_›
  · exact he ‹_›

/-- Draws made for the items of a list one after the other. -/
theorem mapM {f : α → Draw β} {R : α → β → Prop} {xs : List α} (h : ∀ x ∈ xs, Ensures (f x) (R x)) :
    Ensures (xs.mapM f) (List.Forall₂ R xs) :=
  mapM_of_rules (fun _ d P => Ensures d P) .pure .bind h

end Ensures

/-! ## Numbers and positions -/

/-- The high half of a product with a word of `width` bits stays below the other factor. -/
theorem attemptBelow_lt {width size : Nat} (hsize : 0 < size) {word : Draw Nat}
    (hword : Ensures word (· < twoTo width)) :
    ∀ fuel, Ensures (attemptBelow width size word fuel) (· < size)
  | 0 => .throw
  | fuel + 1 => by
    rw [attemptBelow]
    refine .bind hword fun w hw => .ite (fun _ => .pure ?_) fun _ => attemptBelow_lt hsize hword fuel
    -- the word is below the modulus, so its product with the size is below size times modulus
    rw [Nat.div_lt_iff_lt_mul (Nat.zero_lt_of_lt hw), Nat.mul_comm size]
    exact Nat.mul_lt_mul_of_pos_right hw hsize

/-- A number drawn from a range lies in it, if the words it is made of have their width. -/
theorem within_bounds {width lo hi : Nat} {word : Draw Nat}
    (hword : Ensures word (· < twoTo width)) :
    Ensures (within width word lo hi) fun n => lo ≤ n ∧ n < hi := by
  refine .ite (fun hlt => ?_) fun _ => .throw
  refine .bind (attemptBelow_lt (by omega) hword patience) fun n hn => .pure ?_
  omega

/-- A number drawn from 64-bit words lies in its range. -/
theorem number_bounds (lo hi : Nat) : Ensures (number lo hi) fun n => lo ≤ n ∧ n < hi :=
  within_bounds (.bind .any fun w _ => .pure w.toNat_lt)

/-- So does one drawn from 32-bit words. -/
theorem shortNumber_bounds (lo hi : Nat) : Ensures (shortNumber lo hi) fun n => lo ≤ n ∧ n < hi :=
  within_bounds (.bind .any fun w _ => .pure w.toNat_lt)

/-- A drawn position lies in the sequence. -/
theorem position_lt (len : Nat) : Ensures (position len) (· < len) :=
  (number_bounds 0 len).mono fun _ h => h.2

end Draw

/-! ## Builds -/

/-- Whenever the computation does not break off, on whatever source, it is not refused and its value has
the property. -/
def Build.Ensures {α : Type} (b : Build α) (P : α → Prop) : Prop :=
  ∀ s x s', b.run.run s = .ok (x, s') → ∃ a, x = .ok a ∧ P a

namespace Build

/-- A build that is made of two returned a value because both did, and neither was refused. -/
theorem bind_inv {α β : Type} {b : Build α} {f : α → Build β} {s s'' : Source} {c : β}
    (h : (b >>= f).run.run s = .ok (.ok c, s'')) :
    ∃ a s', b.run.run s = .ok (.ok a, s') ∧ (f a).run.run s' = .ok (.ok c, s'') := by
  rw [ExceptT.run_bind] at h
  obtain ⟨x, s', hb, hf⟩ := Draw.bind_inv h
  cases x with
  -- a refusal would have been the result of the whole
  | error cause => cases hf
  | ok a => exact ⟨a, s', hb, hf⟩

/-- A draw inside a build is not refused, and draws as it does alone. -/
theorem lift_inv {α : Type} {d : Draw α} {s s' : Source} {x : Except Refusal α}
    (h : (liftM d : Build α).run.run s = .ok (x, s')) :
    ∃ a, x = .ok a ∧ d.run s = .ok (a, s') := by
  rw [show (liftM d : Build α).run = Except.ok <$> d from rfl, map_eq_pure_bind] at h
  obtain ⟨a, s₁, hd, hp⟩ := Draw.bind_inv h
  rw [StateT.run_pure] at hp
  cases hp
  exact ⟨a, rfl, hd⟩

/-- What follows a build that has returned and was not refused goes on with its value. -/
theorem bind_run {α β : Type} {b : Build α} {s s' : Source} {a : α} (h : b.run.run s = .ok (.ok a, s'))
    (f : α → Build β) : (b >>= f).run.run s = (f a).run.run s' := by
  rw [ExceptT.run_bind, Draw.bind_run h]

/-- And a draw that returns alone returns so inside a build. -/
theorem lift_run {α : Type} {d : Draw α} {s s' : Source} {a : α} (h : d.run s = .ok (a, s')) :
    (liftM d : Build α).run.run s = .ok (.ok a, s') := by
  show (d >>= fun a => pure (Except.ok a)).run s = _
  rw [Draw.bind_run h, StateT.run_pure]
  rfl

namespace Ensures

variable {α β : Type} {P Q : α → Prop}

/-- What is built without a draw has what is known of it. -/
theorem pure {a : α} (h : P a) : Ensures (Pure.pure a) P := by
  intro s x s' hrun
  rw [ExceptT.run_pure, StateT.run_pure] at hrun
  cases hrun
  exact ⟨a, rfl, h⟩

/-- A draw cannot be refused. -/
theorem lift {d : Draw α} (h : d.Ensures P) : Ensures (liftM d) P := by
  intro s x s' hrun
  obtain ⟨a, rfl, hd⟩ := lift_inv hrun
  exact ⟨a, rfl, h s a s' hd⟩

/-- Of a build that breaks off nothing has to be shown. -/
theorem fault {cause : Fault} : Ensures (throwThe Fault cause : Build α) P := by
  intro s x s' hrun
  cases hrun

/-- What is known of what the first build returned may be used for the second. A refusal ends both. -/
theorem bind {b : Build α} {f : α → Build β} {R : β → Prop} (hb : Ensures b P)
    (hf : ∀ a, P a → Ensures (f a) R) : Ensures (b >>= f) R := by
  intro s y s'' hrun
  rw [ExceptT.run_bind] at hrun
  obtain ⟨x, s', hx, hy⟩ := Draw.bind_inv hrun
  obtain ⟨a, rfl, ha⟩ := hb s x s' hx
  exact hf a ha s' y s'' hy

/-- What is computed from the value has what follows from what is known of the value. -/
theorem map {b : Build α} {f : α → β} {R : β → Prop} (hb : Ensures b P)
    (hf : ∀ a, P a → R (f a)) : Ensures (f <$> b) R := by
  rw [map_eq_pure_bind]
  exact .bind hb fun a ha => .pure (hf a ha)

theorem mono {b : Build α} (hb : Ensures b P) (himp : ∀ a, P a → Q a) : Ensures b Q := by
  intro s x s' hrun
  obtain ⟨a, hx, ha⟩ := hb s x s' hrun
  exact ⟨a, hx, himp a ha⟩

theorem ite {c : Prop} [Decidable c] {b d : Build α} (hb : c → Ensures b P)
    (hd : ¬ c → Ensures d P) : Ensures (if c then b else d) P := by
  split
  · exact hb ‹_›
  · exact hd ‹_›

/-- Builds made for the items of a list one after the other. -/
theorem mapM {f : α → Build β} {R : α → β → Prop} {xs : List α} (h : ∀ x ∈ xs, Ensures (f x) (R x)) :
    Ensures (xs.mapM f) (List.Forall₂ R xs) :=
  mapM_of_rules (fun _ b P => Ensures b P) .pure .bind h

end Ensures

/-- Every value that the computation returns, on whatever source, has the property, whether or not it may
be refused. -/
def Yields {α : Type} (b : Build α) (P : α → Prop) : Prop :=
  ∀ s a s', b.run.run s = .ok (.ok a, s') → P a

/-- What is never refused returns what it ensures. -/
theorem Ensures.yields {α : Type} {b : Build α} {P : α → Prop} (h : Ensures b P) : Yields b P := by
  intro s a s' hrun
  obtain ⟨a', ha', hP⟩ := h s _ s' hrun
  cases ha'
  exact hP

/-- A computation that is never refused ensures what its values have in common. -/
theorem Ensures.and_yields {α : Type} {b : Build α} {P Q : α → Prop} (h : Ensures b P) (h' : Yields b Q) :
    Ensures b fun a => P a ∧ Q a := by
  intro s x s' hrun
  obtain ⟨a, rfl, ha⟩ := h s x s' hrun
  exact ⟨a, rfl, ha, h' s a s' hrun⟩

namespace Yields

variable {α β : Type} {P Q : α → Prop}

/-- What is built without a draw has what is known of it. -/
theorem pure {a : α} (h : P a) : Yields (Pure.pure a) P := by
  intro s b s' hrun
  rw [ExceptT.run_pure, StateT.run_pure] at hrun
  cases hrun
  exact h

/-- A draw inside a build yields what it ensures. -/
theorem lift {d : Draw α} (h : d.Ensures P) : Yields (liftM d) P := by
  intro s a s' hrun
  obtain ⟨b, hb, hd⟩ := lift_inv hrun
  cases hb
  exact h s a s' hd

/-- A build that is refused yields nothing, so anything may be said of what it yields. -/
theorem refused {cause : Refusal} : Yields (throw cause : Build α) P := by
  intro s a s' hrun
  cases hrun

/-- Nor does a build that breaks off. -/
theorem fault {cause : Fault} : Yields (throwThe Fault cause : Build α) P := by
  intro s a s' hrun
  cases hrun

/-- What is known of what the first build yielded may be used for the second. -/
theorem bind {b : Build α} {f : α → Build β} {R : β → Prop} (hb : Yields b P)
    (hf : ∀ a, P a → Yields (f a) R) : Yields (b >>= f) R := by
  intro s c s'' hrun
  obtain ⟨a, s', ha, hc⟩ := bind_inv hrun
  exact hf a (hb s a s' ha) s' c s'' hc

theorem mono {b : Build α} (hb : Yields b P) (himp : ∀ a, P a → Q a) : Yields b Q :=
  fun s a s' hrun => himp a (hb s a s' hrun)

/-- Nothing is known of the value. -/
theorem any {b : Build α} : Yields b fun _ => True := fun _ _ _ _ => trivial

theorem ite {c : Prop} [Decidable c] {b d : Build α} (hb : c → Yields b P)
    (hd : ¬ c → Yields d P) : Yields (if c then b else d) P := by
  split
  · exact hb ‹_›
  · exact hd ‹_›

/-- Builds made one after the other, all of whose values have the property. -/
theorem mapM {f : β → Build α} {xs : List β} (h : ∀ x ∈ xs, Yields (f x) P) :
    Yields (xs.mapM f) fun ys => ∀ y ∈ ys, P y := by
  have hall := mapM_of_rules (fun _ b P => Yields b P) .pure .bind (R := fun _ => P) h
  refine hall.mono fun ys hys y hy => ?_
  obtain ⟨-, -, hP⟩ := forall₂_mem_right hys hy
  exact hP

end Yields

end Build

end Vivarium
