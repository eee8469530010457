import Mathlib.Data.List.Chain
import Vivarium.Proofs.World.Requests

/-!
# The moments of a tick

What holds after every tick may still fail to hold within one. So the worlds that a tick passes through are
listed, one for each part of each turn: when the turns begin, when a creature has fed, when its laser has
been counted down and its genes have been run, when an attack has been exchanged and when its target has
been looked at again, when a child has been delivered, when the metabolism has been charged and when
whoever it starved has been taken out; and in the end after each creature that fills up the population. A
tick that breaks off is listed as far as it came.

A listing is judged together with the computation that it lists: `Outcome.Passes` says that each moment
comes from the one before by a given relation, and that the last one is what the computation returns. The
judgement has one rule for each way of putting computations together, so that it follows their shape.

Main result: `moments_pass`.
-/

namespace Vivarium

/-! ## Listed computations -/

namespace Outcome

variable {α β γ : Type}

/-- What is listed once a computation has returned; nothing if it broke off. -/
def andThen (x : Outcome α) (f : α → List β) : List β :=
  match x with
  | .ok a    => f a
  | .error _ => []

theorem mem_andThen {x : Outcome α} {f : α → List β} {b : β} :
    b ∈ x.andThen f ↔ ∃ a, x = .ok a ∧ b ∈ f a := by
  cases x with
  | ok a => simp [andThen]
  | error _ => simp [andThen]

theorem andThen_bind (x : Outcome α) (f : α → Outcome γ) (g : γ → List β) :
    (x >>= f).andThen g = x.andThen fun a => (f a).andThen g := by
  cases x <;> rfl

/-- From `b` the computation passes through the listed items, from each to the next by `R`; if it returns,
then with the last of them, which is read off its value by `read`. -/
structure Passes (R : β → β → Prop) (read : α → β) (b : β) (items : List β) (x : Outcome α) : Prop where
  chain : List.IsChain R (b :: items)
  last  : ∀ a, x = .ok a → (b :: items).getLast? = some (read a)

namespace Passes

variable {R : β → β → Prop} {read : α → β} {read' : γ → β} {b : β}

/-- Nothing is listed before anything is computed. -/
theorem nothing {x : Outcome α} : Passes R (fun _ => b) b [] x := by
  refine ⟨List.isChain_singleton b, fun _ _ => rfl⟩

/-- One more item at the beginning. -/
theorem cons {b' : β} {items : List β} {x : Outcome α} (hR : R b b') (h : Passes R read b' items x) :
    Passes R read b (b' :: items) x := by
  refine ⟨List.isChain_cons_cons.mpr ⟨hR, h.chain⟩, fun a ha => ?_⟩
  rw [List.getLast?_cons_cons]
  exact h.last a ha

theorem single (read : α → β) {a : α} (hR : R b (read a)) :
    Passes R read b [read a] (Pure.pure a) := by
  refine .cons hR ⟨List.isChain_singleton _, fun a' ha' => ?_⟩
  cases ha'
  rfl

/-- What follows a computation goes on where this one has ended. -/
theorem bind {items : List β} {x : Outcome α} {later : α → List β} {f : α → Outcome γ}
    (hx : Passes R read b items x) (hf : ∀ a, x = .ok a → Passes R read' (read a) (later a) (f a)) :
    Passes R read' b (items ++ x.andThen later) (x >>= f) := by
  cases x with
  | error failure =>
    refine ⟨?_, fun c hc => by cases hc⟩
    rw [andThen, List.append_nil]
    exact hx.chain
  | ok a =>
    -- the last moment of the first part is the one that the second begins with
    have hend := hx.last a rfl
    obtain ⟨hchain, hlast⟩ := hf a rfl
    refine ⟨?_, fun c hc => ?_⟩
    · refine List.IsChain.append hx.chain hchain.tail fun y hy z hz => ?_
      rw [hend, Option.mem_some_iff] at hy
      subst hy
      exact hchain.rel_head? hz
    · have hc' := hlast c hc
      show (b :: items ++ later a).getLast? = some (read' c)
      rw [List.getLast?_append, hend]
      rw [List.getLast?_cons] at hc'
      rw [← hc']
      cases (later a).getLast? with
      | none => rfl
      | some _ => rfl

/-- A computation whose outcome is listed once. -/
theorem once {x : Outcome α} (h : ∀ a, x = .ok a → R b (read a)) :
    Passes R read b (x.andThen fun a => [read a]) x := by
  have hx := nothing.bind (x := x) (f := Pure.pure) fun a ha => single read (h a ha)
  rw [bind_pure] at hx
  exact hx

/-- Nothing that is listed happens in what follows. -/
theorem ending {items : List β} {x : Outcome α} {f : α → Outcome γ} (hx : Passes R read b items x)
    (hf : ∀ a c, f a = .ok c → read' c = read a) : Passes R read' b items (x >>= f) := by
  refine ⟨hx.chain, fun c hc => ?_⟩
  obtain ⟨a, ha, hc⟩ := except_bind_inv hc
  rw [hf a c hc]
  exact hx.last a ha

/-- If the relation carries a property on, every item has it. -/
theorem forall_mem {P : β → Prop} {items : List β} {x : Outcome α} (h : Passes R read b items x)
    (hcarry : ∀ ⦃y z⦄, R y z → P y → P z) (hstart : P b) : ∀ y ∈ items, P y :=
  List.IsChain.cons_induction P items h.chain hcarry hstart

end Passes

end Outcome

variable {E : Type} [Physics E]

/-! ## Turns -/

namespace Stage

/-- The moments of carrying out one request. -/
def requestMoments (actor : Rank) (s : Stage E) : Interaction → List (World E)
  | .attack target targetId =>
    [(s.exchange actor target targetId).world, (s.attack actor target targetId).world]
  | .replicate              => (s.replicate actor).andThen fun s' => [s'.world]

/-- The moments of carrying out requests, one after the other. -/
def answerMoments (actor : Rank) : (requests : List Interaction) → Stage E → List (World E)
  | [], _            => []
  | r :: requests, s =>
    s.requestMoments actor r ++ (interact actor s r).andThen (answerMoments actor requests)

/-- The moments of a creature's turn, none if it has been killed before. -/
def turnMoments (s : Stage E) (rank : Rank) : List (World E) :=
  if s.world.creatures.contains rank then
    (s.feed rank).world :: (s.prepared rank).world ::
      (Outcome.ofFault ((s.prepared rank).runGenes rank)).andThen fun (requests, ran) =>
        ran.world :: (answerMoments rank requests ran ++
          (requests.foldlM (interact rank) ran).andThen fun done =>
            [(done.charge rank).world, (done.metabolize rank).world])
  else []

/-- The moments of the turns of the given creatures, one after the other. -/
def turnsMoments : (ranks : List Rank) → Stage E → List (World E)
  | [], _            => []
  | rank :: ranks, s => s.turnMoments rank ++ (s.turn rank).andThen (turnsMoments ranks)

section

variable [LawfulPhysics E] {R : World E → World E → Prop}
  (hmoves : ∀ {s s' : Stage E}, s.Moves s' → R s.world s'.world)

include hmoves

theorem requestMoments_pass (actor : Rank) (s : Stage E) (r : Interaction) :
    Outcome.Passes R (·.world) s.world (s.requestMoments actor r) (interact actor s r) := by
  cases r with
  | attack target targetId =>
    refine .cons (hmoves (s.exchange_moves actor target targetId)) ?_
    exact .single Stage.world (hmoves (s.exchange_moves_attack actor target targetId))
  | replicate => exact .once fun s' hs' => hmoves ((s.replicate_moves actor).of_ok hs')

theorem answerMoments_pass (actor : Rank) (requests : List Interaction) (s : Stage E) :
    Outcome.Passes R (·.world) s.world (answerMoments actor requests s)
      (requests.foldlM (interact actor) s) := by
  induction requests generalizing s with
  | nil => exact ⟨List.isChain_singleton _, fun s' hs' => by cases hs'; rfl⟩
  | cons r requests ih =>
    rw [List.foldlM_cons]
    exact (requestMoments_pass hmoves actor s r).bind fun s' _ => ih s'

/-- The parts of a turn follow one another. -/
theorem turnMoments_pass (s : Stage E) (rank : Rank) :
    Outcome.Passes R (·.world) s.world (s.turnMoments rank) (s.turn rank) := by
  unfold turnMoments turn
  split
  · -- there is one moment after each part of a turn
    refine .cons (hmoves (s.feed_moves rank)) (.cons (hmoves (tickLaser_moves _ rank)) ?_)
    refine Outcome.Passes.nothing.bind fun (requests, ran) hran => ?_
    refine .cons (hmoves (runGenes_moves (Outcome.ofFault_inv hran))) ?_
    refine (answerMoments_pass hmoves rank requests ran).bind fun done _ => ?_
    refine .cons (hmoves (done.charge_moves rank)) ?_
    exact .single Stage.world (hmoves (done.charge_moves_metabolize rank))
  · exact ⟨List.isChain_singleton _, fun s' hs' => by cases hs'; rfl⟩

theorem turnsMoments_pass (ranks : List Rank) (s : Stage E) :
    Outcome.Passes R (·.world) s.world (turnsMoments ranks s) (s.turns ranks) := by
  unfold turns
  induction ranks generalizing s with
  | nil => exact ⟨List.isChain_singleton _, fun s' hs' => by cases hs'; rfl⟩
  | cons rank ranks ih =>
    rw [List.foldlM_cons]
    exact (turnMoments_pass hmoves s rank).bind fun s' _ => ih s'

end

end Stage

/-! ## Ticks -/

namespace World

/-- The moments of filling up with `n` fresh creatures, one for each. -/
def spawnMoments : Nat → World E → List (World E)
  | 0, _     => []
  | n + 1, w => w.spawnFresh.andThen fun (_, w') => w' :: spawnMoments n w'

/-- **The moments of a tick.** -/
def moments (w : World E) (t : TickCall) : List (World E) :=
  (w.openingBy t).andThen fun start =>
    start.world :: (start.turnsMoments (start.views.map (·.rank)) ++
      (start.turns (start.views.map (·.rank))).andThen fun stage =>
        stage.world.spawnMoments stage.world.missing)

section

variable {R : World E → World E → Prop}
  (hfresh : ∀ {w w' : World E} {e : Event}, w.spawnFresh = .ok (e, w') → R w w')

include hfresh

theorem spawnMoments_pass (n : Nat) (w : World E) :
    Outcome.Passes R (·.2) w (w.spawnMoments n) (w.spawnMany n) := by
  induction n generalizing w with
  | zero => exact ⟨List.isChain_singleton _, fun r hr => by cases hr; rfl⟩
  | succ n ih =>
    unfold spawnMoments spawnMany
    refine Outcome.Passes.nothing.bind ?_
    rintro ⟨e, w'⟩ hw'
    refine .cons (hfresh hw') ?_
    exact (ih w').ending fun r r' hr' => by cases hr'; rfl

variable [LawfulPhysics E]

/-- **A tick passes through its moments**, by whatever relation its opening, the parts of its turns and
the spawning of fresh creatures respect. -/
theorem moments_pass (hmoves : ∀ {s s' : Stage E}, s.Moves s' → R s.world s'.world) {w : World E}
    {t : TickCall} (hopening : ∀ start, w.openingBy t = .ok start → R w start.world) :
    Outcome.Passes R (·.2) w (w.moments t) (w.tickBy t) := by
  rw [tickBy_eq]
  refine Outcome.Passes.nothing.bind fun start hstart => .cons (hopening start hstart) ?_
  refine (Stage.turnsMoments_pass hmoves _ start).bind fun stage _ => ?_
  refine (spawnMoments_pass hfresh _ stage.world).ending fun (births, w') r hr => ?_
  -- the last events are told when all is done
  dsimp only at hr
  split at hr
  · cases hr
    rfl
  · cases hr
    rfl

end

variable [LawfulPhysics E]

/-- The last moment of a tick that returns is the world after it. -/
theorem last_moment {w w' : World E} {t : TickCall} {events : List Event}
    (h : w.tickBy t = .ok (events, w')) : (w.moments t).getLast? = some w' := by
  have hpasses := moments_pass (R := fun _ _ => True) (fun _ => trivial) (fun _ => trivial)
    (w := w) (t := t) fun _ _ => trivial
  have hlast : (w :: w.moments t).getLast? = some w' := hpasses.last _ h
  -- a tick that returns has begun, so there is at least one moment
  rw [tickBy_eq] at h
  obtain ⟨start, hstart, -⟩ := except_bind_inv h
  obtain ⟨later, hmoments⟩ : ∃ later, w.moments t = start.world :: later := by
    unfold moments
    rw [hstart]
    exact ⟨_, rfl⟩
  rw [hmoments] at hlast ⊢
  rw [List.getLast?_cons_cons] at hlast
  exact hlast

end World

end Vivarium
