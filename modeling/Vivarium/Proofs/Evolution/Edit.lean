import Vivarium.Proofs.Evolution.Drawn
import Vivarium.Proofs.Evolution.Trace

/-!
# What an operator does to a clone

`Edited ts op us` says everything that the operator `op` can do to the tagged slots `ts`: a run is copied
to some place, fresh slots are put in at some place, a run is cut out, slots are drawn anew in their
places, or nothing happens to them. The rest of the theory of evolution reads the five cases of this
relation and never the operators themselves.

Main results:

* `applyTagged_ensures`: an operator that is eligible does what the relation says, and is not refused.
* `Edited.length_bounds`: an eligible operator leaves a program's number of genes within the bounds.
* `Edited.faithful`, `Edited.kept_sublist`: the tags stay true, and no gene of the clone is kept twice.
-/

namespace Vivarium

/-- Two genes that differ in nothing but their identities. -/
structure Gene.Alike (g h : Gene) : Prop where
  index_eq       : g.index = h.index
  timeCost_eq    : g.timeCost = h.timeCost
  instruction_eq : g.instruction = h.instruction

namespace Gene.Alike

theorem refl (g : Gene) : g.Alike g := ⟨rfl, rfl, rfl⟩

/-- Genes that differ by their identities only are alike in a chain as well. -/
theorem trans {g h k : Gene} (hgh : g.Alike h) (hhk : h.Alike k) : g.Alike k :=
  ⟨hgh.index_eq.trans hhk.index_eq, hgh.timeCost_eq.trans hhk.timeCost_eq,
    hgh.instruction_eq.trans hhk.instruction_eq⟩

end Gene.Alike

/-- A copy differs by its identity only. -/
theorem Gene.copy_ensures (g : Gene) : Draw.Ensures g.copy (·.Alike g) := by
  unfold Gene.copy
  exact .bind .any fun id _ => .pure ⟨rfl, rfl, rfl⟩

/-! ## Traits -/

/-- What a modification can make of traits: vision is traded against attack range, or threshold and
mutation rate are set to one fraction. -/
inductive Traits.Modified (t : Traits) : Traits → Prop
  | traded (range : Nat) (hlt : range < attackRangeBound) :
      Modified t
        { t with vision := tradeoffTotal - Float.ofNat range, attackRange := Float.ofNat range }
  | yoked (word : UInt64) :
      Modified t
        { t with
          familyThreshold := Draw.fractionOfWord word, mutationRate := Draw.fractionOfWord word }

/-- Traits are modified as one of their cases says. -/
theorem Traits.modify_ensures (t : Traits) : t.modify.Ensures t.Modified := by
  unfold modify
  refine .bind .any fun flip _ => .ite (fun _ => ?_) fun _ => ?_
  · exact .bind (Draw.shortNumber_bounds _ _) fun range hrange => .pure (.traded range hrange.2)
  · refine .bind (P := fun x => ∃ word, x = Draw.fractionOfWord word) ?_ ?_
    · exact .bind .any fun word _ => .pure ⟨word, rfl⟩
    · rintro _ ⟨word, rfl⟩
      exact .pure (.yoked word)

/-- What the reported operator, if any, can have made of traits. Only one of them touches them. -/
def Traits.Becomes (t : Traits) (operator : Option MutationOperator) (t' : Traits) : Prop :=
  match operator with
  | some .modifyTraits => t.Modified t'
  | _                  => t' = t

/-- Only an operator that modifies traits does. -/
theorem Traits.Becomes.eq {t t' : Traits} {operator : Option MutationOperator}
    (h : t.Becomes operator t') (hoperator : operator ≠ some .modifyTraits) : t' = t := by
  unfold Becomes at h
  split at h
  · exact absurd rfl hoperator
  · exact h

namespace Tagged

/-! ## The ways in which a slot can be new -/

/-- `u` holds a copy of the gene of `t`. -/
structure CopyOf (t u : Tagged) : Prop where
  origin_eq : u.origin = t.origin.copied
  jumpTo_eq : u.slot.jumpTo = t.slot.jumpTo
  alike     : u.slot.gene.Alike t.slot.gene

/-- `u` holds a gene drawn for a program of `len` genes. -/
structure DrawnFor (len : Nat) (u : Tagged) : Prop where
  origin_eq : u.origin = .fresh
  jumpTo_eq : u.slot.jumpTo = none
  fits      : u.slot.gene.Fits len

/-- `u` is `t`, or holds a gene of the same kind drawn anew. -/
def RedrawOf (len : Nat) (t u : Tagged) : Prop :=
  u = t ∨ DrawnFor len u ∧ u.slot.gene.index = t.slot.gene.index

/-- What an operator can make of tagged slots. -/
inductive Edited (ts : List Tagged) : MutationOperator → List Tagged → Prop
  | duplicate {start size i : Nat} {copies : List Tagged}
      (hstart : start < ts.length) (hsize : 1 ≤ size ∧ size < Slot.segmentBound)
      (hi : i < ts.length)
      (hcopies : List.Forall₂ CopyOf
        ((Slot.run ts start size).take (longestProgram - ts.length)) copies) :
      Edited ts .duplicateSegment (Slot.splice ts i copies)
  | insert {i : Nat} {drawn : List Tagged} (hi : i < ts.length) (hne : drawn ≠ [])
      (hroom : drawn.length ≤ max 1 (longestProgram - ts.length))
      (hdrawn : ∀ u ∈ drawn, DrawnFor ts.length u) :
      Edited ts .insertSegment (Slot.splice ts i drawn)
  | delete {start size : Nat} (hstart : start < ts.length)
      (hsize : 1 ≤ size ∧ size < Slot.segmentBound) :
      Edited ts .deleteSegment (ts.take start ++ ts.drop (start + size))
  | redraw {us : List Tagged} (hus : List.Forall₂ (RedrawOf ts.length) ts us) :
      Edited ts .mutateMemory us
  | traits : Edited ts .modifyTraits ts

/-! ## The operators do what the relation says -/

/-- What is copied is like the original, and is tagged as a copy. -/
theorem copy_ensures (t : Tagged) : Draw.Ensures t.copy (CopyOf t) := by
  unfold copy
  exact .bind t.slot.gene.copy_ensures fun g hg => .pure ⟨rfl, rfl, hg⟩

/-- To duplicate a segment edits the list as it says. -/
theorem duplicate_ensures (ts : List Tagged) :
    Draw.Ensures (duplicate ts) (Edited ts .duplicateSegment) := by
  unfold duplicate
  refine .bind (Draw.number_bounds _ _) fun size hsize => ?_
  refine .bind (Draw.position_lt _) fun start hstart => ?_
  refine .bind (Draw.position_lt _) fun i hi => ?_
  refine .bind (.mapM fun t _ => copy_ensures t) fun copies hcopies => ?_
  exact .pure (.duplicate hstart hsize hi hcopies)

/-- A fresh slot holds a gene that fits the program, and no jump to be repaired. -/
theorem fresh_ensures {len : Nat} (hlen : 0 < len) :
    Build.Ensures (Slot.fresh len) fun s => s.jumpTo = none ∧ s.gene.Fits len := by
  unfold Slot.fresh
  refine .bind (Catalog.drawAnyGene_ensures false len) fun g hg => .pure ⟨rfl, ?_⟩
  rwa [Nat.max_eq_left hlen] at hg

/-- So does every slot of a fresh run, of which there are no more than there is room for. -/
theorem freshRun_ensures {len : Nat} (hlen : 0 < len) (continueProb : Float) :
    ∀ room, Build.Ensures (Slot.freshRun len continueProb room) fun run =>
      run.length ≤ room ∧ ∀ s ∈ run, s.jumpTo = none ∧ s.gene.Fits len
  | 0 => by
    unfold Slot.freshRun
    exact .bind (.lift .any) fun _ _ => .pure ⟨Nat.le_refl _, by simp⟩
  | room + 1 => by
    unfold Slot.freshRun
    -- the run ends with this roll, or a fresh slot is followed by what the smaller room allows
    refine .bind (.lift .any) fun roll _ => .ite (fun _ => ?_) fun _ => .pure ⟨by simp, by simp⟩
    refine .bind (fresh_ensures hlen) fun s hs => ?_
    refine .bind (freshRun_ensures hlen continueProb room) fun run hrun => .pure ⟨?_, ?_⟩
    · rw [List.length_cons]
      exact Nat.succ_le_succ hrun.1
    · intro s' hs'
      rcases List.mem_cons.mp hs' with rfl | hmem
      · exact hs
      · exact hrun.2 s' hmem

/-- To insert a segment edits the list as it says. -/
theorem insert_ensures {ts : List Tagged} (hts : 0 < ts.length) (continueProb : Float) :
    Build.Ensures (insert ts continueProb) (Edited ts .insertSegment) := by
  unfold insert
  refine .bind (.lift (Draw.position_lt _)) fun i hi => ?_
  refine .bind (fresh_ensures hts) fun first hfirst => ?_
  refine .bind (freshRun_ensures hts continueProb _) fun others hothers => .pure ?_
  refine .insert hi (by simp) ?_ fun u hu => ?_
  -- one slot at least, and else no more than the room
  · rw [List.length_map, List.length_cons]
    have := hothers.1
    omega
  · obtain ⟨s, hs, rfl⟩ := List.mem_map.mp hu
    have hfresh : s.jumpTo = none ∧ s.gene.Fits ts.length := by
      rcases List.mem_cons.mp hs with rfl | hmem
      · exact hfirst
      · exact hothers.2 s hmem
    exact ⟨rfl, hfresh.1, hfresh.2⟩

/-- So does the deletion of one. -/
theorem delete_ensures (ts : List Tagged) :
    Draw.Ensures (delete ts) (Edited ts .deleteSegment) := by
  unfold delete
  refine .bind (Draw.position_lt _) fun start hstart => ?_
  exact .bind (Draw.number_bounds _ _) fun size hsize => .pure (.delete hstart hsize)

/-- Nothing needs to have been redrawn. -/
theorem RedrawOf.refl (len : Nat) : ∀ ts : List Tagged, List.Forall₂ (RedrawOf len) ts ts
  | []      => .nil
  | _ :: ts => .cons (.inl rfl) (refl len ts)

/-- What is redrawn has the index of what was there. -/
theorem RedrawOf.index_eq {len : Nat} {t u : Tagged} (h : RedrawOf len t u) :
    u.slot.gene.index = t.slot.gene.index := by
  rcases h with rfl | ⟨-, hindex⟩
  · rfl
  · exact hindex

/-- Drawing once more the gene of one slot. -/
theorem RedrawOf.set {len : Nat} {u : Tagged} :
    ∀ {ts us : List Tagged} {i : Nat}, List.Forall₂ (RedrawOf len) ts us →
      (∀ t, us[i]? = some t → DrawnFor len u ∧ u.slot.gene.index = t.slot.gene.index) →
      List.Forall₂ (RedrawOf len) ts (us.set i u)
  | _, _, _, .nil, _ => .nil
  | _, _, 0, .cons ht hts, hu => by
    obtain ⟨hdrawn, hindex⟩ := hu _ rfl
    exact .cons (.inr ⟨hdrawn, hindex.trans ht.index_eq⟩) hts
  | _, _, i + 1, .cons ht hts, hu => .cons ht (RedrawOf.set hts hu)

/-- To redraw operands edits the list as it says. The induction is on the slots that may still be redrawn. -/
theorem redraw_ensures {ts : List Tagged} (hts : 0 < ts.length)
    (hindex : ∀ t ∈ ts, t.slot.gene.index < catalogLength) (continueProb : Float) :
    ∀ (fuel : Nat) {us : List Tagged}, List.Forall₂ (RedrawOf ts.length) ts us →
      Build.Ensures (redraw continueProb us fuel) (Edited ts .mutateMemory)
  | 0, _, _ => .fault
  | fuel + 1, us, hus => by
    have hlength : us.length = ts.length := hus.length_eq.symm
    unfold redraw
    refine .bind (.lift .any) fun roll _ => .ite (fun _ => ?_) fun _ => .pure (.redraw hus)
    refine .bind (.lift (Draw.position_lt _)) fun i hi => ?_
    have hget : us[i]? = some us[i] := List.getElem?_eq_getElem hi
    -- the kind drawn again is that of the clone's gene, however often it was drawn before
    obtain ⟨t, ht, hredraw⟩ := forall₂_mem_right hus (List.getElem_mem hi)
    have hlt : us[i].slot.gene.index < catalogLength := by
      rw [hredraw.index_eq]
      exact hindex t ht
    rw [hget, Option.map_some, Option.getD_some, hlength]
    refine .bind (Catalog.drawGene_ensures hlt) fun g hg => ?_
    refine redraw_ensures hts hindex continueProb fuel (RedrawOf.set hus fun t' ht' => ?_)
    rw [hget] at ht'
    cases ht'
    refine ⟨⟨rfl, rfl, ?_⟩, hg.2⟩
    have hfits := hg.1
    rwa [Nat.max_eq_left hts] at hfits

/-- **An eligible operator does what the relation says**, and is not refused. -/
theorem applyTagged_ensures {ts : List Tagged} (hts : 0 < ts.length)
    (hindex : ∀ t ∈ ts, t.slot.gene.index < catalogLength) (config : EvolutionConfig)
    (traits : Traits) (op : MutationOperator) :
    Build.Ensures (op.applyTagged config ts traits) fun (us, traits') =>
      Edited ts op us ∧ traits.Becomes (some op) traits' := by
  -- four of the operators leave the traits as they are, and the fifth leaves the slots
  cases op with
  | duplicateSegment =>
    exact .bind (.lift (duplicate_ensures ts)) fun us hus => .pure ⟨hus, rfl⟩
  | insertSegment =>
    exact .bind (insert_ensures hts _) fun us hus => .pure ⟨hus, rfl⟩
  | deleteSegment =>
    exact .bind (.lift (delete_ensures ts)) fun us hus => .pure ⟨hus, rfl⟩
  | mutateMemory =>
    exact .bind (redraw_ensures hts hindex _ _ (RedrawOf.refl _ ts)) fun us hus => .pure ⟨hus, rfl⟩
  | modifyTraits =>
    exact .bind (.lift traits.modify_ensures) fun traits' h => .pure ⟨.traits, h⟩

/-! ## Lengths -/

/-- What is put in makes the list as much longer. -/
theorem length_splice {α : Type} {xs ys : List α} {i : Nat} (hi : i < xs.length) :
    (Slot.splice xs i ys).length = xs.length + ys.length := by
  unfold Slot.splice
  rw [List.length_append, List.length_append, List.length_take, List.length_drop]
  omega

/-- After it was put in, there is what was there and what was put in. -/
theorem mem_splice {α : Type} {xs ys : List α} {i : Nat} {x : α} :
    x ∈ Slot.splice xs i ys ↔ x ∈ xs ∨ x ∈ ys := by
  have hsplit : x ∈ xs ↔ x ∈ xs.take i ∨ x ∈ xs.drop i := by
    rw [← List.mem_append, List.take_append_drop]
  unfold Slot.splice
  rw [List.mem_append, List.mem_append, hsplit]
  tauto

/-- A run, cut short or not, is a part of the list. -/
theorem mem_of_mem_run {α : Type} {xs : List α} {start size room : Nat} {x : α}
    (h : x ∈ (Slot.run xs start size).take room) : x ∈ xs :=
  List.mem_of_mem_drop (List.mem_of_mem_take (List.mem_of_mem_take h))

/-- **The bounds on a program's length survive** whatever an eligible operator does: growth is cut to the
room that is left, and a program that may be cut is longer than the shortest by more than a run. -/
theorem Edited.length_bounds {ts us : List Tagged} {op : MutationOperator} (h : Edited ts op us)
    (heligible : op.isEligible ts.length = true) (hmin : shortestProgram ≤ ts.length)
    (hmax : ts.length ≤ longestProgram) :
    shortestProgram ≤ us.length ∧ us.length ≤ longestProgram := by
  cases h with
  | @duplicate start size i copies hstart hsize hi hcopies =>
    -- the copies were cut to the room
    have hroom : copies.length ≤ longestProgram - ts.length := by
      rw [← hcopies.length_eq, List.length_take]
      exact Nat.min_le_left _ _
    rw [length_splice hi]
    omega
  | @insert i drawn hi hne hroom hdrawn =>
    -- an eligible program has room for one slot
    have hlt : ts.length < longestProgram := by simpa [MutationOperator.isEligible] using heligible
    rw [length_splice hi]
    omega
  | @delete start size hstart hsize =>
    -- nine slots at most are cut out of more than twenty-five
    have hlong : shortestProgram + 10 < ts.length := by
      simpa [MutationOperator.isEligible] using heligible
    have hsize' : size < 10 := hsize.2
    rw [List.length_append, List.length_take, List.length_drop]
    omega
  | redraw hus =>
    rw [← hus.length_eq]
    exact ⟨hmin, hmax⟩
  | traits => exact ⟨hmin, hmax⟩

/-! ## The tags stay true -/

/-- Whether the slot holds a gene of the clone itself. -/
def isKept (t : Tagged) : Bool := t.origin.kept?.isSome

/-- What a tag says: the slot is that of the clone's gene, but for the identity of the gene. -/
def Faithful (clone : List Gene) (t : Tagged) : Prop :=
  ∀ i, t.origin.model? = some i → ∃ s, (Slot.ofGenes clone)[i]? = some s ∧
    t.slot.jumpTo = s.jumpTo ∧ t.slot.gene.Alike s.gene

/-- A copy is no longer the kept gene. -/
theorem CopyOf.isKept_eq {t u : Tagged} (h : CopyOf t u) : u.isKept = false := by
  unfold isKept
  rw [h.origin_eq]
  cases t.origin <;> rfl

/-- Nor is a gene that was drawn. -/
theorem DrawnFor.isKept_eq {len : Nat} {u : Tagged} (h : DrawnFor len u) : u.isKept = false := by
  unfold isKept
  rw [h.origin_eq]
  rfl

/-- A copy is as faithful to the clone as its original. -/
theorem CopyOf.faithful {clone : List Gene} {t u : Tagged} (h : CopyOf t u)
    (ht : Faithful clone t) : Faithful clone u := by
  intro i hi
  -- a copy of a copy is a copy of the same gene
  have hmodel : t.origin.model? = some i := by
    rw [h.origin_eq] at hi
    cases horigin : t.origin <;> rw [horigin] at hi <;> exact hi
  obtain ⟨s, hs, hjump, halike⟩ := ht i hmodel
  exact ⟨s, hs, h.jumpTo_eq.trans hjump, h.alike.trans halike⟩

/-- A drawn gene owes the clone nothing. -/
theorem DrawnFor.faithful {clone : List Gene} {len : Nat} {u : Tagged} (h : DrawnFor len u) :
    Faithful clone u := by
  intro i hi
  rw [h.origin_eq] at hi
  cases hi

/-- A splice of slots none of which is kept does not change which slots are. -/
theorem filter_isKept_splice {ts us : List Tagged} {i : Nat} (h : ∀ u ∈ us, u.isKept = false) :
    (Slot.splice ts i us).filter isKept = ts.filter isKept := by
  -- what is spliced in is new, so only the old slots are kept ones
  have hnone : us.filter isKept = [] := by
    rw [List.filter_eq_nil_iff]
    intro u hu
    rw [h u hu]
    exact Bool.false_ne_true
  unfold Slot.splice
  rw [List.filter_append, List.filter_append, hnone, List.append_nil, ← List.filter_append,
    List.take_append_drop]

/-- No operator moves the clone's own genes past each other, changes one of them or keeps one twice. -/
theorem Edited.kept_sublist {ts us : List Tagged} {op : MutationOperator} (h : Edited ts op us) :
    (us.filter isKept).Sublist (ts.filter isKept) := by
  cases h with
  | duplicate _ _ _ hcopies =>
    -- copies are not kept slots
    rw [filter_isKept_splice fun u hu => ?_]
    · obtain ⟨t, -, hcopy⟩ := forall₂_mem_right hcopies hu
      exact hcopy.isKept_eq
  | insert _ _ _ hdrawn => rw [filter_isKept_splice fun u hu => (hdrawn u hu).isKept_eq]
  | @delete start size _ _ =>
    refine List.Sublist.filter _ ?_
    calc (ts.take start ++ ts.drop (start + size)).Sublist (ts.take start ++ ts.drop start) := by
          refine List.Sublist.append (List.Sublist.refl _) ?_
          rw [← List.drop_drop]
          exact List.drop_sublist _ _
      _ = ts := List.take_append_drop _ _
  | redraw hus =>
    -- item by item: a slot that is drawn anew leaves the sublist
    generalize ts.length = len at hus
    induction hus with
    | nil => exact List.Sublist.refl _
    | @cons t u ts us htu _ ih =>
      rcases htu with rfl | ⟨hdrawn, -⟩
      · by_cases hkept : u.isKept
        · rw [List.filter_cons_of_pos hkept, List.filter_cons_of_pos hkept]
          exact ih.cons_cons u
        · rw [List.filter_cons_of_neg hkept, List.filter_cons_of_neg hkept]
          exact ih
      · rw [List.filter_cons_of_neg (by rw [hdrawn.isKept_eq]; exact Bool.false_ne_true)]
        exact ih.trans ((List.sublist_cons_self t ts).filter _)
  | traits => exact List.Sublist.refl _

/-- **Where an edited slot comes from**: it was there before, or is a copy of one that was, or was drawn. -/
theorem Edited.mem_cases {ts us : List Tagged} {op : MutationOperator} (h : Edited ts op us) {u : Tagged}
    (hu : u ∈ us) : u ∈ ts ∨ (∃ t ∈ ts, CopyOf t u) ∨ DrawnFor ts.length u := by
  -- each edit takes over some of the old slots and adds new ones of its own kind
  cases h with
  | duplicate _ _ _ hcopies =>
    rcases mem_splice.mp hu with hmem | hmem
    · exact .inl hmem
    · obtain ⟨t, ht, hcopy⟩ := forall₂_mem_right hcopies hmem
      exact .inr (.inl ⟨t, mem_of_mem_run ht, hcopy⟩)
  | insert _ _ _ hdrawn => exact (mem_splice.mp hu).imp_right fun hmem => .inr (hdrawn u hmem)
  | delete _ _ => exact .inl ((List.mem_append.mp hu).elim List.mem_of_mem_take List.mem_of_mem_drop)
  | redraw hus =>
    obtain ⟨t, ht, rfl | ⟨hdrawn, -⟩⟩ := forall₂_mem_right hus hu
    · exact .inl ht
    · exact .inr (.inr hdrawn)
  | traits => exact .inl hu

/-- **Every edit keeps the slots faithful to the clone.** -/
theorem Edited.faithful {clone : List Gene} {ts us : List Tagged} {op : MutationOperator}
    (h : Edited ts op us) (hts : ∀ t ∈ ts, Faithful clone t) : ∀ u ∈ us, Faithful clone u := by
  intro u hu
  rcases h.mem_cases hu with hold | ⟨t, ht, hcopy⟩ | hdrawn
  · exact hts u hold
  · exact hcopy.faithful (hts t ht)
  · exact hdrawn.faithful

end Tagged

end Vivarium
