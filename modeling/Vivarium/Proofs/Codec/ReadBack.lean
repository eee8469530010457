import Vivarium.Codec.Creature
import Vivarium.Codec.Event
import Vivarium.Proofs.Codec.Programs

/-!
# What has been written is read back

Creatures and events are records whose parts may be null and may be records themselves. Each of them is read
back as what it was, whatever its kind, as long as its reals are finite and its numbers have the width of their
kind.

Main result: `written_data_are_read_back`.
-/

namespace Vivarium

/-! ## Creatures -/

structure Vec.Storable (v : Vec) : Prop where
  x : v.x.isFinite
  y : v.y.isFinite

theorem Vec.ofDatum_toDatum {v : Vec} (h : v.Storable) : ofDatum v.toDatum = .ok v := by
  simp [toDatum, ofDatum, Parts.of, h.x, h.y]

theorem Handle.ofDatum_toDatum {b : Handle} (h : b.number < twoTo 64) : ofDatum b.toDatum = .ok b := by
  simp [toDatum, ofDatum, h]

structure Traits.Storable (t : Traits) : Prop where
  vision          : t.vision.isFinite
  attackRange     : t.attackRange.isFinite
  familyThreshold : t.familyThreshold.isFinite
  mutationRate    : t.mutationRate.isFinite

/-- Traits are written field by field, and each is read from its own. -/
theorem Traits.ofDatum_toDatum {t : Traits} (h : t.Storable) : ofDatum t.toDatum = .ok t := by
  simp [toDatum, ofDatum, Parts.of, h.vision, h.attackRange, h.familyThreshold, h.mutationRate]

/-- An identity that may be missing is read back. -/
theorem Datum.toOption_ofIdent (i : Option Ident) :
    (Datum.ofOption Datum.ofIdent i).toOption Datum.toIdent = .ok i :=
  toOption_ofOption (fun _ => Datum.noConfusion) fun i _ => toIdent_ofIdent i

structure Lineage.Storable (l : Lineage) : Prop where
  generation : l.generation < twoTo 32
  mutations  : l.mutations < twoTo 32

/-- A lineage is read back if its counters fit their words. -/
theorem Lineage.ofDatum_toDatum {l : Lineage} (h : l.Storable) : ofDatum l.toDatum = .ok l := by
  simp [toDatum, ofDatum, Parts.of, Datum.toOption_ofIdent, h.generation, h.mutations]

structure Laser.Storable (l : Laser) : Prop where
  targetBody : l.targetBody.number < twoTo 64
  timer      : l.timer < twoTo 32
  start      : l.start.Storable
  stop       : l.stop.Storable

theorem Laser.ofDatum_toDatum {l : Laser} (h : l.Storable) : ofDatum l.toDatum = .ok l := by
  simp [toDatum, ofDatum, Parts.of, Handle.ofDatum_toDatum h.targetBody, h.timer, Vec.ofDatum_toDatum h.start,
    Vec.ofDatum_toDatum h.stop]

structure Creature.Storable (c : Creature) : Prop where
  body        : c.body.number < twoTo 64
  lineage     : c.lineage.Storable
  traits      : c.traits.Storable
  program     : c.program.Storable
  hue         : c.hue.isFinite
  hunger      : c.hunger.isFinite
  mass        : c.mass.isFinite
  direction   : c.direction.isFinite
  cursor      : c.cursor < twoTo 64
  pendingJump : ∀ goal, c.pendingJump = some goal → goal < twoTo 64
  moveDelay   : c.moveDelay < twoTo 32
  laser       : ∀ l, c.laser = some l → l.Storable
  birthTick   : c.birthTick < twoTo 64

/-- **A creature is read back** with its program, its traits, its lineage and its laser. -/
theorem Creature.ofDatum_toDatum {c : Creature} (h : c.Storable) : ofDatum c.toDatum = .ok c := by
  -- the two parts that may be null; nothing that they hold is written as null
  have hjump : (Datum.ofOption Datum.ofNat c.pendingJump).toOption (Datum.toNat 64) = .ok c.pendingJump :=
    Datum.toOption_ofOption (fun _ => Datum.noConfusion) fun goal hgoal =>
      Datum.toNat_ofNat (h.pendingJump goal hgoal)
  have hlaser : (Datum.ofOption Laser.toDatum c.laser).toOption Laser.ofDatum = .ok c.laser :=
    Datum.toOption_ofOption (fun _ => Datum.noConfusion) fun l hl => Laser.ofDatum_toDatum (h.laser l hl)
  simp [toDatum, ofDatum, Parts.of, found, foundOrNone, Handle.ofDatum_toDatum h.body,
    Lineage.ofDatum_toDatum h.lineage, Traits.ofDatum_toDatum h.traits, Program.ofDatum_toDatum h.program,
    h.hue, h.hunger, h.mass, h.direction, h.cursor, hjump, h.moveDelay, hlaser, h.birthTick]

/-! ## Events -/

/-- Ticks and ages have 64 bits, generations 32. -/
def Event.Storable : Event → Prop
  | birth _ _ generation tick => generation < twoTo 32 ∧ tick < twoTo 64
  | death _ age tick          => age < twoTo 64 ∧ tick < twoTo 64
  | mutation _ _ tick         => tick < twoTo 64
  | attack _ _ tick           => tick < twoTo 64
  | foodEaten _ _ tick        => tick < twoTo 64
  | extinction tick           => tick < twoTo 64

/-- An event is read back by the tag that says which one it is. -/
theorem Event.ofDatum_toDatum {e : Event} (h : e.Storable) : ofDatum e.toDatum = .ok e := by
  -- all that a text could lose are numbers beyond 64 bits
  cases e with
  | birth id parentId generation tick =>
    simp [toDatum, ofDatum, ofParts, Parts.of, Datum.toOption_ofIdent, h.1, h.2]
  | death id age tick => simp [toDatum, ofDatum, ofParts, Parts.of, h.1, h.2]
  | mutation id operator tick =>
    simp [toDatum, ofDatum, ofParts, Parts.of, Datum.toText, show tick < twoTo 64 from h]
  | attack attacker target tick =>
    simp [toDatum, ofDatum, ofParts, Parts.of, show tick < twoTo 64 from h]
  | foodEaten creature food tick =>
    simp [toDatum, ofDatum, ofParts, Parts.of, show tick < twoTo 64 from h]
  | extinction tick => simp [toDatum, ofDatum, ofParts, Parts.of, show tick < twoTo 64 from h]

/-! ## All of them -/

/-- **What has been written is read back, and only programs are read as programs.** Instructions, genes,
programs, creatures and events that can be stored are read back as what they were. A datum that holds genes is
read as a program exactly if there are 15 to 60 of them, all with the index of their instruction, and then as the
program of these genes; if it is refused, then for the length if that is wrong, and else for the first gene that
is. -/
theorem written_data_are_read_back :
    (∀ i : Instruction, i.Storable → Instruction.ofDatum i.toDatum = .ok i) ∧
    (∀ g : Gene, g.Storable → Gene.ofDatum g.toDatum = .ok g) ∧
    (∀ p : Program, p.Storable → Program.ofDatum p.toDatum = .ok p) ∧
    (∀ c : Creature, c.Storable → Creature.ofDatum c.toDatum = .ok c) ∧
    (∀ e : Event, e.Storable → Event.ofDatum e.toDatum = .ok e) ∧
    (∀ (d : Datum) (p : Program), Program.ofDatum d = .ok p ↔ d.HoldsGenes p.genes) ∧
    ∀ (d : Datum) (genes : List Gene), d.HoldsGenes genes →
      ((∃ p, Program.ofDatum d = .ok p) ↔
        (15 ≤ genes.length ∧ genes.length ≤ 60) ∧ ∀ g ∈ genes, g.Indexed) ∧
      (∀ p, Program.ofDatum d = .ok p → p.genes = genes) ∧
      (¬ (15 ≤ genes.length ∧ genes.length ≤ 60) →
        Program.ofDatum d = .error (.program (.length genes.length))) ∧
      ∀ before bad after, genes = before ++ bad :: after → 15 ≤ genes.length → genes.length ≤ 60 →
        (∀ g ∈ before, g.Indexed) → ¬ bad.Indexed →
        Program.ofDatum d = .error (.program (.unknownGene bad.index)) := by
  refine ⟨fun _ => Instruction.ofDatum_toDatum, fun _ => Gene.ofDatum_toDatum, fun _ => Program.ofDatum_toDatum,
    fun _ => Creature.ofDatum_toDatum, fun _ => Event.ofDatum_toDatum, fun _ _ => Program.ofDatum_eq_ok_iff,
    fun d genes hgenes => ?_⟩
  have hsame (p : Program) (h : Program.ofDatum d = .ok p) : p.genes = genes :=
    (Program.ofDatum_eq_ok_iff.mp h).unique hgenes
  -- a program carries the proof that its genes are one, so what is read tells of what the datum holds
  refine ⟨?_, hsame, fun hlen => Program.ofDatum_eq_error hgenes (Program.ofGenes_of_length hlen), ?_⟩
  · rw [← isProgram_iff]
    constructor
    · rintro ⟨p, hp⟩
      exact hsame p hp ▸ p.isProgram
    · exact fun h => ⟨⟨genes, h⟩, Program.ofDatum_eq_ok_iff.mpr hgenes⟩
  · rintro before bad after rfl hmin hmax hbefore hbad
    exact Program.ofDatum_eq_error hgenes (Program.ofGenes_of_misfit hmin hmax hbefore hbad)

/-- A gene that waits. -/
def Gene.waiting : Gene := ⟨.ofNat 1, 15, 100, .wait⟩

/-- A creature that only waits, with a parent, a jump ahead and a laser. -/
def Creature.patient : Creature where
  id          := .ofNat 7
  body        := ⟨3⟩
  lineage     := { parentId := some (.ofNat 6), generation := 2, mutations := 1 }
  traits      := {}
  program     := ⟨List.replicate 15 .waiting, ⟨by decide, by decide, by decide⟩⟩
  hue         := 120.0
  hunger      := 0.5
  mass        := 100.0
  direction   := 0.0
  cursor      := 4
  pendingJump := some 2
  moveDelay   := 99
  laser       := some ⟨.ofNat 9, ⟨5⟩, 3, ⟨1.0, 2.0⟩, ⟨3.0, 4.0⟩⟩
  birthTick   := 12

theorem Gene.waiting_storable : waiting.Storable := ⟨by decide, by decide, trivial⟩

theorem Creature.patient_storable : patient.Storable where
  body        := by decide
  lineage     := ⟨by decide, by decide⟩
  traits      := ⟨by decide +kernel, by decide +kernel, by decide +kernel, by decide +kernel⟩
  program     := fun g hg => List.eq_of_mem_replicate hg ▸ Gene.waiting_storable
  hue         := by decide +kernel
  hunger      := by decide +kernel
  mass        := by decide +kernel
  direction   := by decide +kernel
  cursor      := by decide
  pendingJump := by
    rintro goal ⟨⟩
    decide
  moveDelay   := by decide
  laser       := by
    rintro l ⟨⟩
    exact ⟨by decide, by decide, ⟨by decide +kernel, by decide +kernel⟩, ⟨by decide +kernel, by decide +kernel⟩⟩
  birthTick   := by decide

/-- The creature is read back with all that it has. Of twenty genes the fourth and the fifth have wrong indices,
and the fourth is named. -/
theorem written_data_are_read_back_patient :
    Creature.ofDatum Creature.patient.toDatum = .ok .patient ∧
    Program.ofDatum (.record [("genes", .ofList Gene.toDatum (List.replicate 3 .waiting ++
      { Gene.waiting with index := 99 } :: { Gene.waiting with index := 3 } :: List.replicate 15 .waiting))]) =
        .error (.program (.unknownGene 99)) := by
  obtain ⟨-, -, -, hcreatures, -, -, hjudged⟩ := written_data_are_read_back
  refine ⟨hcreatures .patient Creature.patient_storable, ?_⟩
  have hwaits (n : Nat) : ∀ g ∈ List.replicate n Gene.waiting, g.Storable :=
    fun _ hg => List.eq_of_mem_replicate hg ▸ Gene.waiting_storable
  have hstored : ∀ g ∈ List.replicate 3 Gene.waiting ++ { Gene.waiting with index := 99 } ::
      { Gene.waiting with index := 3 } :: List.replicate 15 .waiting, g.Storable :=
    List.forall_mem_append.mpr ⟨hwaits 3, List.forall_mem_cons.mpr ⟨⟨by decide, by decide, trivial⟩,
      List.forall_mem_cons.mpr ⟨⟨by decide, by decide, trivial⟩, hwaits 15⟩⟩⟩
  obtain ⟨-, -, -, hmisfit⟩ := hjudged _ _ (Datum.holdsGenes_record hstored)
  refine hmisfit _ _ _ rfl (by decide) (by decide) (fun g hg => ?_) fun h => absurd h.lt (by decide)
  rw [List.eq_of_mem_replicate hg]
  exact ⟨by decide, rfl⟩

end Vivarium
