import Vivarium.Proofs.Evolution.Sequence
import Vivarium.Proofs.World.Arena
import Vivarium.Proofs.World.Recall
import Vivarium.World.Frame

/-!
# The capacity of the memo cannot be observed

A session sets a world up and makes calls. What it lets see is the answer to each call and, after each of
them, the creatures, the pellets and the frame of the world. Two sessions whose configurations differ in
the capacity of the memo let see the same, though the two memos are compacted at different moments; and
so they do when comparisons of genomes are made on the side in one of them, each of which fills the memo.

Main result: `capacity_unobservable`.
-/

namespace Vivarium

/-! ## Sessions -/

/-- What a call returns. -/
inductive Answer where
  | events (es : List Event)
  | spawned (id : Ident)
  | resized (found : Bool)
  | similarity (score : Option Float)

/-- What can be seen of a world: its creatures and pellets in the order of spawning, and its frame. -/
structure Appearance where
  creatures : List Creature
  pellets   : List Pellet
  frame     : Frame

/-- What was answered to a sequence of calls and seen after each of them, and why it ended early if it
did. -/
structure Transcript where
  answers : List (Answer × Appearance)
  failure : Option Failure

variable {E : Type}

namespace World

variable [Physics E]

def appearance (w : World E) : Appearance := ⟨w.creatures.values, w.pellets.values, w.frame⟩

/-- Makes a call: its answer, and the world after it. -/
def ask (w : World E) : Call → Outcome (Answer × World E)
  | .tick t              => do
    let (events, w) ← w.tickBy t
    return (.events events, w)
  | .insertCreature seed => do
    let (id, w) ← Outcome.ofFault (w.insertCreature seed)
    return (.spawned id, w)
  | .insertPellet place  => do
    let (id, w) ← Outcome.ofFault (w.insertPellet place)
    return (.spawned id, w)
  | .setMass id mass     =>
    match w.setCreatureMass? id mass with
    | some w => return (.resized true, w)
    | none   => return (.resized false, w)
  | .compare a b         => return (.similarity (w.genomeSimilarity a b).1, (w.genomeSimilarity a b).2)

/-- Makes calls until one of them ends early. -/
def transcript (w : World E) : List Call → Transcript
  | []      => ⟨[], none⟩
  | c :: cs =>
    match w.ask c with
    | .error cause    => ⟨[], some cause⟩
    | .ok (answer, w) =>
      let t := w.transcript cs
      ⟨(answer, w.appearance) :: t.answers, t.failure⟩

/-- Sets a world up and makes calls. -/
def session (config : Config) (enclosure : E) (entropy : BitVec 256) (calls : List Call) :
    Outcome (Appearance × Transcript) := do
  let w ← create config enclosure entropy
  return (w.appearance, w.transcript calls)

end World

/-! ## Comparisons on the side -/

/-- A call, or a comparison of genomes on the side. -/
abbrev Asked := Call ⊕ (Ident × Ident)

/-- All calls in sequence, those on the side among them. -/
def Asked.all (calls : List Asked) : List Call := calls.map (Sum.elim id fun (a, b) => .compare a b)

/-- The calls in sequence, those on the side left out. -/
def Asked.main (calls : List Asked) : List Call := calls.filterMap Sum.getLeft?

/-- The transcript of all calls without the answers to those on the side. -/
def Transcript.main (t : Transcript) (calls : List Asked) : Transcript :=
  { t with answers := ((t.answers.zip calls).filter (·.2.isLeft)).map (·.1) }

variable [Physics E]

namespace World.Alike

variable {w w' : World E}

theorem appearance_eq (h : w.Alike w') : w'.appearance = w.appearance := by
  obtain ⟨-, k, m, -, rfl⟩ := h
  rfl

theorem setCreatureMass?_recalling (w : World E) (k : Nat) (m : Cache) (id : Ident) (mass : Float) :
    (w.recalling k m).setCreatureMass? id mass =
      (w.setCreatureMass? id mass).map (·.recalling k m) := by
  unfold setCreatureMass?
  rw [show (w.recalling k m).liveRank? id = w.liveRank? id from rfl, Option.map_map]
  exact congrArg (Option.map · _) (funext fun rank => setMass_recalling w k m rank mass)

omit [Physics E] in
/-- An answer is made of what the call returned. -/
theorem answered {α : Type} (answer : α → Answer) {x y : Outcome (α × World E)} (hxy : Tells x y) :
    Tells (do let (a, w) ← x; return (answer a, w)) (do let (a, w) ← y; return (answer a, w)) := by
  refine Agree.bind hxy ?_
  rintro ⟨a, v⟩ ⟨_, v'⟩ ⟨rfl, hv⟩
  exact .pure ⟨rfl, hv⟩

/-- **Every call is answered alike**, and leaves alike worlds. -/
theorem ask (h : w.Alike w') (c : Call) : Tells (w.ask c) (w'.ask c) := by
  cases c with
  -- a call that says nothing of the memo gives the same answer whatever the memo holds
  | tick t => exact answered .events (h.tickBy t)
  | insertCreature seed =>
    exact answered .spawned
      (.ofFault (h.tells (f := (·.insertCreature seed)) fun w k m => insertCreature_recalling w k m seed))
  | insertPellet place =>
    exact answered .spawned
      (.ofFault (h.tells (f := (·.insertPellet place)) fun w k m => insertPellet_recalling w k m place))
  | setMass id mass =>
    refine h.tells (f := (·.ask (.setMass id mass))) fun w k m => ?_
    unfold World.ask
    dsimp only
    rw [setCreatureMass?_recalling]
    cases w.setCreatureMass? id mass <;> rfl
  | compare a b =>
    obtain ⟨hscore, hafter⟩ := h.genomeSimilarity a b
    exact .pure ⟨congrArg Answer.similarity hscore, hafter⟩

/-- The transcripts of alike worlds are the same, those answers left out that were asked for on the side
in one of them. -/
theorem transcript_main :
    ∀ (calls : List Asked) {w w' : World E}, w.Alike w' →
      (w'.transcript (Asked.all calls)).main calls = w.transcript (Asked.main calls)
  | [], _, _, _ => rfl
  | .inr (a, b) :: calls, w, w', h => by
    -- nothing is asked of the other world, and the two stay alike
    show ((w'.genomeSimilarity a b).2.transcript (Asked.all calls)).main calls = _
    exact transcript_main calls (h.aside a b)
  | .inl c :: calls, w, w', h => by
    have hask := h.ask c
    show (w'.transcript (c :: Asked.all calls)).main (.inl c :: calls) =
      w.transcript (c :: Asked.main calls)
    unfold World.transcript
    cases hw : w.ask c with
    | error cause =>
      cases hw' : w'.ask c with
      | error cause' =>
        rw [hw, hw'] at hask
        cases (show cause = cause' from hask)
        rfl
      | ok _ =>
        rw [hw, hw'] at hask
        cases hask
    | ok x =>
      cases hw' : w'.ask c with
      | error _ =>
        rw [hw, hw'] at hask
        cases hask
      | ok x' =>
        rw [hw, hw'] at hask
        obtain ⟨answer, v⟩ := x
        obtain ⟨answer', v'⟩ := x'
        obtain ⟨rfl, hafter⟩ := (show answer = answer' ∧ v.Alike v' from hask)
        dsimp only
        rw [← transcript_main calls hafter, hafter.appearance_eq]
        rfl

end World.Alike

/-- Two accepted configurations that differ in the capacity alone set up alike worlds. -/
theorem World.create_tells {config : Config} (k : Nat) (hvalid : config.Valid)
    (hvalid' : (config.withCapacity k).Valid) (enclosure : E) (entropy : BitVec 256) :
    Agree World.Alike (create config enclosure entropy)
      (create (config.withCapacity k) enclosure entropy) := by
  -- the two bare worlds differ in the capacity of an empty memo alone
  have hbare : (bare config enclosure entropy).Alike
      (bare (config.withCapacity k) enclosure entropy) :=
    ⟨.empty _, k, .empty k, .empty k, rfl⟩
  unfold create
  rw [hvalid.validate_eq, hvalid'.validate_eq]
  refine Agree.bind (hbare.tells (f := refill) fun w k m => w.refill_recalling k m) ?_
  rintro ⟨births, w⟩ ⟨_, w'⟩ ⟨rfl, hw, k', m, hm, rfl⟩
  exact .pure ⟨hw, k', m, hm, rfl⟩

/-- **The capacity of the memo cannot be observed.** For two accepted configurations that differ in the
capacity of the memo alone, and for the same calls on worlds set up alike, whatever is answered and
whatever is seen after each call is the same, in either mode of kinship, and so is the cause if a call
ends early. This stays so when any number of comparisons is made on the side in one of the sessions. -/
theorem capacity_unobservable {config config' : Config} {enclosure : E} {entropy : BitVec 256}
    (hvalid : config.Valid) (hvalid' : config'.Valid)
    (hsame : config'.withCapacity 0 = config.withCapacity 0) (calls : List Asked) :
    (fun (seen, t) => (seen, Transcript.main t calls)) <$>
        World.session config' enclosure entropy (Asked.all calls) =
      World.session config enclosure entropy (Asked.main calls) := by
  -- the configurations differ in the capacity at most, so the second is the first with another one
  have hconfig : config' = config.withCapacity config'.kinship.similarityCacheCapacity :=
    congrArg (·.withCapacity config'.kinship.similarityCacheCapacity) hsame
  generalize config'.kinship.similarityCacheCapacity = k at hconfig
  subst hconfig
  have hcreate := World.create_tells k hvalid hvalid' enclosure entropy
  unfold World.session
  cases hw : World.create config enclosure entropy with
  | error cause =>
    cases hw' : World.create (config.withCapacity k) enclosure entropy with
    | error cause' =>
      rw [hw, hw'] at hcreate
      cases (show cause = cause' from hcreate)
      rfl
    | ok _ =>
      rw [hw, hw'] at hcreate
      cases hcreate
  | ok w =>
    cases hw' : World.create (config.withCapacity k) enclosure entropy with
    | error _ =>
      rw [hw, hw'] at hcreate
      cases hcreate
    | ok w' =>
      rw [hw, hw'] at hcreate
      have halike : w.Alike w' := hcreate
      show Except.ok (w'.appearance, (w'.transcript (Asked.all calls)).main calls) =
        Except.ok (w.appearance, w.transcript (Asked.main calls))
      rw [halike.appearance_eq, World.Alike.transcript_main calls halike]

/-- A world in which nobody appears by itself and kin are told by their genomes, with room for `k` scores
in the memo. -/
def Config.discerning (k : Nat) : Config :=
  { world   := { seed := some 1, populationFloor := 0 }
    kinship := { mode := .similarity, similarityCacheCapacity := k } }

/-- Three creatures of three kinds meet for two ticks, and the first two of them are compared on the side
in between, under the identities that the seed gives them. -/
def meetings : List Asked :=
  [.inl (.insertCreature { program := .idle, position := ⟨30.0, 40.0⟩, mass := 120.0 }),
    .inl (.insertCreature { program := .pacing, position := ⟨60.0, 40.0⟩, mass := 120.0 }),
    .inl (.insertCreature { program := .pouncing, position := ⟨90.0, 40.0⟩, mass := 120.0 }),
    .inl (.tick (.advance 16.0)),
    .inr (⟨1482817706323250795, 7424550030962593201⟩, ⟨5233167733899381733, 4045824405258374466⟩),
    .inl (.tick .update)]

theorem capacity_unobservable_meetings :
    (Config.discerning 2).Valid ∧ (Config.discerning 1000).Valid ∧
      (fun (seen, t) => (seen, Transcript.main t meetings)) <$>
          World.session (.discerning 2) (Enclosure.empty 1280.0 720.0) 0 (Asked.all meetings) =
        World.session (.discerning 1000) (Enclosure.empty 1280.0 720.0) 0 (Asked.main meetings) := by
  have htight : (Config.discerning 2).Valid := by decide +kernel
  have hroomy : (Config.discerning 1000).Valid := by decide +kernel
  exact ⟨htight, hroomy, capacity_unobservable hroomy htight rfl meetings⟩

end Vivarium
