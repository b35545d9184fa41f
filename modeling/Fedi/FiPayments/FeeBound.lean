import Fedi.Lib.Covers
import Mathlib.Algebra.Group.Action.Defs
import Mathlib.Data.List.Sort
import Mathlib.Tactic.Ring

/-!
# Fee bound of a hold (`fi_payments/funding.rs`)

The bound pays the input fees of the smallest economical notes that cover the spend, and those of one set of
change notes.  A minimal selection pays no more, if no note that the bound leaves pays a larger share of its
worth in fees than one that it counts:

    selection less one note, worth < spend → its fees ≤ fees of the smallest notes   (Covers.dearest_cover)
    the one note is a change tier                                                    (worstCase_of_sharesFall)

Where a floor makes a larger note pay a larger share, some inventory pays more (`bound_falls_short`).
-/

namespace FiPayments

open Covers

/-! ## The bound -/

structure EconomicalNote where
  value : ℕ
  count : ℕ
  fee : ℕ
deriving DecidableEq

/-- The notes that the wallet has and that are worth more than their fees. -/
def economicalNotes (inputFee : ℕ → Option ℕ) : List (ℕ × ℕ) → Option (List EconomicalNote)
  | [] => some []
  | (value, count) :: notes => do
    let fee ← inputFee value
    let economical ← economicalNotes inputFee notes
    some (if fee < value ∧ count > 0 then ⟨value, count, fee⟩ :: economical else economical)

/-- The order of the triples. -/
def EconomicalNote.Before (a b : EconomicalNote) : Prop :=
  a.value < b.value ∨ a.value = b.value ∧ (a.count < b.count ∨ a.count = b.count ∧ a.fee ≤ b.fee)

instance : DecidableRel EconomicalNote.Before := fun _ _ => inferInstanceAs (Decidable (_ ∨ _))

instance : Std.Total EconomicalNote.Before := ⟨fun a b => by unfold EconomicalNote.Before; omega⟩

instance : IsTrans EconomicalNote EconomicalNote.Before :=
  ⟨fun a b c hab hbc => by unfold EconomicalNote.Before at *; omega⟩

def checkedMsats (n : ℕ) : Option ℕ := if n < 2 ^ 64 then some n else none

/-- The fees of the smallest notes that cover what remains. -/
def smallestNoteFees : List EconomicalNote → ℕ → ℕ → Option ℕ
  | [], _, bound => some bound
  | note :: economical, remaining, bound =>
    if remaining = 0 then some bound
    else do
      let effective := note.value - note.fee
      let needed := (remaining + effective - 1) / effective
      let used := min needed note.count
      let fees ← checkedMsats (note.fee * used)
      let bound ← checkedMsats (bound + fees)
      smallestNoteFees economical (remaining - min (effective * used) (2 ^ 64 - 1)) bound

/-- One set of change notes, spent and minted. -/
def addChangeNotes (inputFee outputFee : ℕ → Option ℕ) : List ℕ → ℕ → Option ℕ
  | [], bound => some bound
  | tier :: changeTiers, bound => do
    let fee ← inputFee tier
    if fee < tier then
      let bound ← checkedMsats (bound + fee)
      let output ← outputFee tier
      let bound ← checkedMsats (bound + output)
      addChangeNotes inputFee outputFee changeTiers bound
    else addChangeNotes inputFee outputFee changeTiers bound

def inventoryFeeBoundMsats (spendMsats : ℕ) (notes : List (ℕ × ℕ)) (changeTiers : List ℕ)
    (inputFee outputFee : ℕ → Option ℕ) : Option ℕ := do
  let economical ← economicalNotes inputFee notes
  let bound ← smallestNoteFees (economical.insertionSort EconomicalNote.Before) spendMsats 0
  addChangeNotes inputFee outputFee changeTiers bound

/-! ## Selections of notes -/

/-- The input fee of a mint: a base, and a share of the value in parts per million. -/
def mintInputFee (base ppm value : ℕ) : ℕ := base + value * ppm / 1000000

section

variable (fee : ℕ → ℕ)

def netWorth (value : ℕ) : ℕ := value - fee value

/-- The notes one by one. -/
def inventory (notes : List (ℕ × ℕ)) : List ℕ := notes.flatMap fun n => List.replicate n.2 n.1

def economicalInventory (notes : List (ℕ × ℕ)) : List ℕ := (inventory notes).filter fun v => fee v < v

/-- Economical notes that cover the spend, and none of them can be left out. -/
structure Selection (notes : List (ℕ × ℕ)) (spendMsats : ℕ) (selected : Multiset ℕ) : Prop where
  sub : selected ≤ inventory notes
  economical : ∀ v ∈ selected, fee v < v
  covers : spendMsats ≤ sumOf (netWorth fee) selected
  minimal : ∀ v ∈ selected, sumOf (netWorth fee) (selected.erase v) < spendMsats

/-- No economical note that the smallest-first pick leaves pays a larger share of its worth in fees than one that it
keeps: `v` is kept if the notes below it do not cover the spend, and `w` is left if those up to it cover the spend
without one of its own. -/
def SharesFall (notes : List (ℕ × ℕ)) (spendMsats : ℕ) : Prop :=
  ∀ v ∈ economicalInventory fee notes, ∀ w ∈ economicalInventory fee notes, v < w →
    (((economicalInventory fee notes).filter (· < v)).map (netWorth fee)).sum < spendMsats →
    spendMsats + netWorth fee w ≤ (((economicalInventory fee notes).filter (· ≤ w)).map (netWorth fee)).sum →
    fee w * netWorth fee v ≤ fee v * netWorth fee w

end

/-- The bound is a worst case. -/
def WorstCase (spendMsats : ℕ) (notes : List (ℕ × ℕ)) (changeTiers : List ℕ) (base ppm : ℕ)
    (outputFee : ℕ → Option ℕ) : Prop :=
  ∀ bound,
    inventoryFeeBoundMsats spendMsats notes changeTiers (fun v => some (mintInputFee base ppm v)) outputFee = some bound →
    ∀ selected, Selection (mintInputFee base ppm) notes spendMsats selected →
      sumOf (mintInputFee base ppm) selected ≤ bound

/-! ## The smallest notes -/

section

variable {fee : ℕ → ℕ} {outputFee : ℕ → Option ℕ} {notes : List (ℕ × ℕ)} {economical : List EconomicalNote}
  {changeTiers : List ℕ} {spendMsats remaining bound bound' : ℕ}

/-- A list of triples, one note by one. -/
def noteValues (economical : List EconomicalNote) : List ℕ := economical.flatMap fun n => List.replicate n.count n.value

theorem checkedMsats_eq {n m : ℕ} (h : checkedMsats n = some m) : m = n := by
  unfold checkedMsats at h
  split at h
  · cases h
    rfl
  · cases h

theorem economicalInventory_cons (value count : ℕ) (notes : List (ℕ × ℕ)) :
    economicalInventory fee ((value, count) :: notes) =
      (if fee value < value then List.replicate count value else []) ++ economicalInventory fee notes := by
  have hcons : inventory ((value, count) :: notes) = List.replicate count value ++ inventory notes := rfl
  unfold economicalInventory
  rw [hcons, List.filter_append]
  congr 1
  by_cases heconomical : fee value < value
  · rw [if_pos heconomical]
    exact List.filter_eq_self.mpr fun v hv => decide_eq_true (by rw [List.eq_of_mem_replicate hv]; exact heconomical)
  · rw [if_neg heconomical]
    refine List.filter_eq_nil_iff.mpr fun v hv => ?_
    rw [List.eq_of_mem_replicate hv, decide_eq_true_iff]
    exact heconomical

theorem economicalNotes_spec (h : economicalNotes (fun v => some (fee v)) notes = some economical) :
    (∀ n ∈ economical, n.fee = fee n.value ∧ fee n.value < n.value) ∧
      noteValues economical = economicalInventory fee notes := by
  induction notes generalizing economical with
  | nil =>
    cases h
    exact ⟨fun _ hn => absurd hn List.not_mem_nil, rfl⟩
  | cons note notes ih =>
    obtain ⟨value, count⟩ := note
    cases hrest : economicalNotes (fun v => some (fee v)) notes with
    | none => simp [economicalNotes, hrest] at h
    | some rest =>
      obtain ⟨hfees, hvalues⟩ := ih hrest
      simp only [economicalNotes, hrest, Option.bind_eq_bind, Option.bind_some, Option.some.injEq] at h
      rw [economicalInventory_cons, ← hvalues]
      by_cases hkept : fee value < value ∧ count > 0
      · rw [if_pos hkept] at h
        subst h
        rw [if_pos hkept.1]
        refine ⟨fun n hn => ?_, rfl⟩
        rcases List.mem_cons.mp hn with rfl | hn
        · exact ⟨rfl, hkept.1⟩
        · exact hfees n hn
      · rw [if_neg hkept] at h
        subst h
        refine ⟨hfees, ?_⟩
        by_cases heconomical : fee value < value
        · have hcount : count = 0 := by omega
          rw [if_pos heconomical, hcount]
          rfl
        · rw [if_neg heconomical]
          rfl

/-- The bound counts the fees of the first notes that cover what remains. -/
theorem smallestNoteFees_spec (hnotes : ∀ n ∈ economical, n.fee = fee n.value ∧ fee n.value < n.value)
    (hword : remaining < 2 ^ 64) (h : smallestNoteFees economical remaining bound = some bound') :
    bound' = bound + sumOf fee (takeCover (netWorth fee) (noteValues economical) remaining) := by
  induction economical generalizing remaining bound with
  | nil =>
    cases h
    rfl
  | cons note economical ih =>
    unfold smallestNoteFees at h
    by_cases hzero : remaining = 0
    · rw [if_pos hzero] at h
      cases h
      rw [hzero, takeCover_zero]
      rfl
    · rw [if_neg hzero] at h
      obtain ⟨hfee, heconomical⟩ := hnotes note List.mem_cons_self
      rw [hfee] at h
      have hpos : 0 < netWorth fee note.value := Nat.sub_pos_of_lt heconomical
      have hvalues : noteValues (note :: economical) = List.replicate note.count note.value ++ noteValues economical := rfl
      rw [hvalues, takeCover_replicate note.count hpos]
      generalize hused : min ((remaining + netWorth fee note.value - 1) / netWorth fee note.value) note.count = used
      have hused' : min ((remaining + (note.value - fee note.value) - 1) / (note.value - fee note.value)) note.count = used :=
        hused
      dsimp only at h
      rw [hused'] at h
      obtain ⟨fees, hfees, h⟩ := Option.bind_eq_some_iff.mp h
      obtain ⟨next, hnext, h⟩ := Option.bind_eq_some_iff.mp h
      have hleft : remaining - min ((note.value - fee note.value) * used) (2 ^ 64 - 1) =
          remaining - netWorth fee note.value * used := by
        show _ = remaining - (note.value - fee note.value) * used
        omega
      rw [hleft] at h
      rw [ih (fun n hn => hnotes n (List.mem_cons_of_mem _ hn)) (by omega) h, checkedMsats_eq hnext, checkedMsats_eq hfees,
        ← Multiset.coe_add, sumOf_add, Nat.add_assoc]
      have hreplicate : sumOf fee (List.replicate used note.value : List ℕ) = fee note.value * used := by
        rw [sumOf_coe, List.map_replicate, List.sum_replicate, smul_eq_mul, Nat.mul_comm]
      rw [hreplicate]

/-- The change notes pay the fee of each economical tier. -/
theorem addChangeNotes_spec (h : addChangeNotes (fun v => some (fee v)) outputFee changeTiers bound = some bound') :
    bound ≤ bound' ∧ ∀ tier ∈ changeTiers, fee tier < tier → bound + fee tier ≤ bound' := by
  induction changeTiers generalizing bound with
  | nil =>
    cases h
    exact ⟨Nat.le_refl _, fun _ hmem => absurd hmem List.not_mem_nil⟩
  | cons tier changeTiers ih =>
    simp only [addChangeNotes, Option.bind_eq_bind, Option.bind_some] at h
    by_cases heconomical : fee tier < tier
    · rw [if_pos heconomical] at h
      obtain ⟨paid, hpaid, h⟩ := Option.bind_eq_some_iff.mp h
      obtain ⟨output, -, h⟩ := Option.bind_eq_some_iff.mp h
      obtain ⟨minted, hminted, h⟩ := Option.bind_eq_some_iff.mp h
      have hpaid' := checkedMsats_eq hpaid
      have hminted' := checkedMsats_eq hminted
      obtain ⟨hle, htiers⟩ := ih h
      refine ⟨by omega, fun other hother hless => ?_⟩
      rcases List.mem_cons.mp hother with rfl | hother
      · omega
      · have := htiers other hother hless
        omega
    · rw [if_neg heconomical] at h
      obtain ⟨hle, htiers⟩ := ih h
      refine ⟨hle, fun other hother hless => ?_⟩
      rcases List.mem_cons.mp hother with rfl | hother
      · exact absurd hless heconomical
      · exact htiers other hother hless

theorem noteValues_pairwise (h : economical.Pairwise EconomicalNote.Before) : (noteValues economical).Pairwise (· ≤ ·) := by
  induction economical with
  | nil => exact List.Pairwise.nil
  | cons note economical ih =>
    rw [List.pairwise_cons] at h
    have hvalues : noteValues (note :: economical) = List.replicate note.count note.value ++ noteValues economical := rfl
    rw [hvalues, List.pairwise_append]
    refine ⟨List.pairwise_replicate.mpr (.inr (Nat.le_refl _)), ih h.2, fun v hv w hw => ?_⟩
    obtain ⟨other, hother, hw⟩ := List.mem_flatMap.mp hw
    rw [List.eq_of_mem_replicate hv, List.eq_of_mem_replicate hw]
    have hbefore := h.1 other hother
    unfold EconomicalNote.Before at hbefore
    omega

/-- The bound is made of the smallest economical notes that cover the spend, and of the change notes. -/
theorem inventoryFeeBound_spec (hspend : spendMsats < 2 ^ 64)
    (h : inventoryFeeBoundMsats spendMsats notes changeTiers (fun v => some (fee v)) outputFee = some bound) :
    ∃ xs : List ℕ, xs.Perm (economicalInventory fee notes) ∧ xs.Pairwise (· ≤ ·) ∧
      addChangeNotes (fun v => some (fee v)) outputFee changeTiers (sumOf fee (takeCover (netWorth fee) xs spendMsats)) =
        some bound := by
  unfold inventoryFeeBoundMsats at h
  obtain ⟨economical, heconomical, h⟩ := Option.bind_eq_some_iff.mp h
  obtain ⟨fees, hfees, hbound⟩ := Option.bind_eq_some_iff.mp h
  obtain ⟨hnotes, hvalues⟩ := economicalNotes_spec heconomical
  have hsort := List.perm_insertionSort EconomicalNote.Before economical
  have hfees := smallestNoteFees_spec (fun n hn => hnotes n (hsort.mem_iff.mp hn)) hspend hfees
  rw [Nat.zero_add] at hfees
  refine ⟨_, ?_, noteValues_pairwise (List.pairwise_insertionSort EconomicalNote.Before economical), hfees ▸ hbound⟩
  rw [← hvalues]
  exact hsort.flatMap_right _

/-! ## Worst cases -/

/-- In the order of their values the pick keeps a first part of the notes, and leaves no dearer one. -/
theorem shares_of_sorted {xs before after : List ℕ} {last : ℕ} (hperm : xs.Perm (economicalInventory fee notes))
    (hsorted : xs.Pairwise (· ≤ ·)) (hsplit : xs = before ++ last :: after)
    (hlt : sumOf (netWorth fee) before < spendMsats) (hle : spendMsats ≤ sumOf (netWorth fee) before + netWorth fee last)
    (h : SharesFall fee notes spendMsats) :
    ∀ v ∈ before ++ [last], ∀ w ∈ after, netWorth fee v * fee w ≤ fee v * netWorth fee w := by
  subst hsplit
  rw [sumOf_coe] at hlt hle
  rw [List.pairwise_append, List.pairwise_cons] at hsorted
  obtain ⟨-, ⟨hafter, -⟩, hbefore⟩ := hsorted
  have hsum : ∀ p : ℕ → Bool, (((economicalInventory fee notes).filter p).map (netWorth fee)).sum =
      ((before.filter p).map (netWorth fee)).sum + (((last :: after).filter p).map (netWorth fee)).sum := by
    intro p
    rw [← ((hperm.filter p).map (netWorth fee)).sum_eq, List.filter_append, List.map_append, List.sum_append]
  intro v hv w hw
  have hvlast : v ≤ last := by
    rcases List.mem_append.mp hv with hv | hv
    · exact hbefore v hv last List.mem_cons_self
    · exact (List.mem_singleton.mp hv).le
  have hlastw := hafter w hw
  have hvmem : v ∈ economicalInventory fee notes := by
    refine hperm.mem_iff.mp ?_
    rw [List.append_cons]
    exact List.mem_append_left _ hv
  have hwmem : w ∈ economicalInventory fee notes :=
    hperm.mem_iff.mp (List.mem_append_right _ (List.mem_cons_of_mem _ hw))
  rcases Nat.lt_or_eq_of_le (hvlast.trans hlastw) with hless | rfl
  · rw [Nat.mul_comm (netWorth fee v)]
    refine h v hvmem w hwmem hless ?_ ?_
    · -- below `v` there are only notes before the last one
      have hnone : (last :: after).filter (fun x => decide (x < v)) = [] := by
        refine List.filter_eq_nil_iff.mpr fun x hx => ?_
        rw [decide_eq_true_iff]
        rcases List.mem_cons.mp hx with rfl | hx
        · omega
        · have := hafter x hx
          omega
      have hpart := ((List.filter_sublist (p := fun x => decide (x < v)) (l := before)).map (netWorth fee)).sum_le_sum
        fun _ _ => Nat.zero_le _
      rw [hsum, hnone, List.map_nil, List.sum_nil]
      omega
    · -- up to `w` there are those that cover the spend, and `w`
      have hall : before.filter (· ≤ w) = before := List.filter_eq_self.mpr fun x hx =>
        decide_eq_true ((hbefore x hx last List.mem_cons_self).trans hlastw)
      have hlast : (last :: after).filter (fun x => decide (x ≤ w)) = last :: after.filter fun x => decide (x ≤ w) :=
        List.filter_cons_of_pos (decide_eq_true hlastw)
      have hone : netWorth fee w ≤ ((after.filter fun x => decide (x ≤ w)).map (netWorth fee)).sum :=
        List.le_sum_of_mem (List.mem_map_of_mem (List.mem_filter.mpr ⟨hw, decide_eq_true (Nat.le_refl w)⟩))
      rw [hsum, hall, hlast, List.map_cons, List.sum_cons]
      omega
  · rw [Nat.mul_comm]

/-- A minimal selection pays the fees of the smallest notes and of one more. -/
theorem selection_le (hspend : spendMsats < 2 ^ 64) (htiers : ∀ n ∈ notes, n.1 ∈ changeTiers)
    (h : SharesFall fee notes spendMsats)
    (hbound : inventoryFeeBoundMsats spendMsats notes changeTiers (fun v => some (fee v)) outputFee = some bound)
    {selected : Multiset ℕ} (hselected : Selection fee notes spendMsats selected) : sumOf fee selected ≤ bound := by
  obtain ⟨xs, hperm, hsorted, hbound⟩ := inventoryFeeBound_spec hspend hbound
  obtain ⟨hle, hchange⟩ := addChangeNotes_spec hbound
  have hsub : selected ≤ (xs : Multiset ℕ) := by
    rw [Multiset.coe_eq_coe.mpr hperm]
    unfold economicalInventory
    rw [← Multiset.filter_coe]
    exact Multiset.le_filter.mpr ⟨hselected.sub, hselected.economical⟩
  by_cases hnone : selected = 0
  · rw [hnone]
    exact Nat.zero_le _
  · obtain ⟨note, hnote⟩ := Multiset.exists_mem_of_ne_zero hnone
    have hcons : selected = note ::ₘ selected.erase note := (Multiset.cons_erase hnote).symm
    have hrest := hselected.minimal note hnote
    have hcover : spendMsats ≤ sumOf (netWorth fee) xs := le_trans hselected.covers (sumOf_le_of_le _ hsub)
    have hworth : ∀ x ∈ xs, 0 < netWorth fee x := by
      intro x hx
      have hkept := (List.mem_filter.mp (hperm.mem_iff.mp hx)).2
      exact Nat.sub_pos_of_lt (of_decide_eq_true hkept)
    have hdearest : sumOf fee (selected.erase note) ≤ sumOf fee (takeCover (netWorth fee) xs spendMsats) :=
      dearest_cover hcover hworth
        (fun before last after hsplit hlt hle => shares_of_sorted hperm hsorted hsplit hlt hle h)
        (le_trans (Multiset.erase_le note selected) hsub) hrest.le
    have htier : note ∈ changeTiers := by
      obtain ⟨n, hn, hmem⟩ := List.mem_flatMap.mp (Multiset.mem_coe.mp (Multiset.mem_of_le hselected.sub hnote))
      rw [List.eq_of_mem_replicate hmem]
      exact htiers n hn
    have hone := hchange note htier (hselected.economical note hnote)
    rw [hcons, sumOf_cons]
    omega

end

/-- The bound is a worst case where no note that it leaves pays a larger share than one that it counts. -/
theorem worstCase_of_sharesFall (spendMsats : ℕ) (notes : List (ℕ × ℕ)) (changeTiers : List ℕ) (base ppm : ℕ)
    (outputFee : ℕ → Option ℕ) (hspend : spendMsats < 2 ^ 64) (htiers : ∀ n ∈ notes, n.1 ∈ changeTiers)
    (h : SharesFall (mintInputFee base ppm) notes spendMsats) :
    WorstCase spendMsats notes changeTiers base ppm outputFee :=
  fun _ hbound _ hselected => selection_le hspend htiers h hbound hselected

/-- Three denominations with a flat fee. -/
theorem worstCase_flat : WorstCase 11 [(2, 3), (4, 1), (8, 2)] [2, 4, 8] 1 0 (fun _ => some 1) :=
  worstCase_of_sharesFall 11 [(2, 3), (4, 1), (8, 2)] [2, 4, 8] 1 0 (fun _ => some 1) (by decide) (by decide)
    (by unfold SharesFall; decide)

/-- At 1000 parts per million a note of 512 is free and a note of 1024 is not: the bound counts six free notes
and one of the change, where three notes pay 3. -/
theorem floored_fee_exceeds :
    inventoryFeeBoundMsats 3069 [(512, 6), (1024, 3)] [512, 1024] (fun v => some (mintInputFee 0 1000 v))
        (fun v => some (mintInputFee 0 1000 v)) = some 2 ∧
      Selection (mintInputFee 0 1000) [(512, 6), (1024, 3)] 3069 {1024, 1024, 1024} ∧
      sumOf (mintInputFee 0 1000) {1024, 1024, 1024} = 3 ∧
      ¬ WorstCase 3069 [(512, 6), (1024, 3)] [512, 1024] 0 1000 (fun v => some (mintInputFee 0 1000 v)) := by
  have hbound : inventoryFeeBoundMsats 3069 [(512, 6), (1024, 3)] [512, 1024] (fun v => some (mintInputFee 0 1000 v))
      (fun v => some (mintInputFee 0 1000 v)) = some 2 := by decide +kernel
  have hselected : Selection (mintInputFee 0 1000) [(512, 6), (1024, 3)] 3069 {1024, 1024, 1024} :=
    ⟨by decide, by decide, by decide, by decide⟩
  have hfees : sumOf (mintInputFee 0 1000) {1024, 1024, 1024} = 3 := by decide
  refine ⟨hbound, hselected, hfees, fun h => ?_⟩
  have hle := h 2 hbound _ hselected
  omega

/-! ## Where larger notes pay larger shares -/

section

variable {fee : ℕ → ℕ} {outputFee : ℕ → Option ℕ} {changeTiers : List ℕ} {v w c change : ℕ}

theorem sumOf_replicate (f : ℕ → ℕ) (n x : ℕ) : sumOf f (Multiset.replicate n x) = n * f x := by
  unfold sumOf
  rw [Multiset.map_replicate, Multiset.sum_replicate, smul_eq_mul]

/-- Equal notes cover just what they are worth. -/
theorem selection_replicate (hw : fee w < w) {notes : List (ℕ × ℕ)} (hmem : (w, c) ∈ notes) :
    Selection fee notes (c * netWorth fee w) (Multiset.replicate c w) where
  sub := by
    obtain ⟨before, after, rfl⟩ := List.append_of_mem hmem
    have hsplit : inventory (before ++ (w, c) :: after) = inventory before ++ (List.replicate c w ++ inventory after) := by
      unfold inventory
      rw [List.flatMap_append, List.flatMap_cons]
    rw [hsplit, ← Multiset.coe_replicate]
    exact Multiset.coe_le.mpr
      ((List.sublist_append_left _ _).trans (List.sublist_append_right _ _)).subperm
  economical := by
    intro x hx
    rw [Multiset.eq_of_mem_replicate hx]
    exact hw
  covers := by rw [sumOf_replicate]
  minimal := by
    intro x hx
    have hpos : 0 < netWorth fee w := Nat.sub_pos_of_lt hw
    obtain ⟨hne, rfl⟩ := Multiset.mem_replicate.mp hx
    obtain ⟨k, rfl⟩ := Nat.exists_eq_succ_of_ne_zero hne
    rw [Multiset.replicate_succ, Multiset.erase_cons_head, sumOf_replicate]
    exact Nat.mul_lt_mul_of_pos_right (Nat.lt_succ_self k) hpos

/-- If a larger note pays a larger share, the bound is too low for enough of both: `change` is what the change
notes add. -/
theorem bound_falls_short (hv : fee v < v) (hw : fee w < w) (hvw : v < w)
    (hshare : netWorth fee v * (fee v + change) < c * (fee w * netWorth fee v - fee v * netWorth fee w))
    (hchange : ∀ bound bound', addChangeNotes (fun x => some (fee x)) outputFee changeTiers bound = some bound' →
      bound' = bound + change) (hspend : c * netWorth fee w < 2 ^ 64) :
    Selection fee [(v, c * netWorth fee w), (w, c)] (c * netWorth fee w) (Multiset.replicate c w) ∧
      ∀ bound, inventoryFeeBoundMsats (c * netWorth fee w) [(v, c * netWorth fee w), (w, c)] changeTiers
        (fun x => some (fee x)) outputFee = some bound → bound < sumOf fee (Multiset.replicate c w) := by
  refine ⟨selection_replicate hw (List.mem_cons_of_mem _ List.mem_cons_self), fun bound hbound => ?_⟩
  have hpos : 0 < netWorth fee v := Nat.sub_pos_of_lt hv
  generalize hspent : c * netWorth fee w = spent at hspend hbound
  obtain ⟨xs, hperm, hsorted, hbound⟩ := inventoryFeeBound_spec hspend hbound
  have hordered : xs = List.replicate spent v ++ List.replicate c w := by
    have hinventory : economicalInventory fee [(v, spent), (w, c)] = List.replicate spent v ++ List.replicate c w := by
      rw [economicalInventory_cons, economicalInventory_cons, if_pos hv, if_pos hw]
      show _ ++ (_ ++ []) = _
      rw [List.append_nil]
    rw [hinventory] at hperm
    refine hperm.eq_of_pairwise (fun _ _ _ _ => Nat.le_antisymm) hsorted ?_
    rw [List.pairwise_append]
    refine ⟨List.pairwise_replicate.mpr (.inr (Nat.le_refl _)), List.pairwise_replicate.mpr (.inr (Nat.le_refl _)), ?_⟩
    intro x hx y hy
    rw [List.eq_of_mem_replicate hx, List.eq_of_mem_replicate hy]
    exact hvw.le
  have hfees := hchange _ _ hbound
  rw [hordered, takeCover_replicate spent hpos] at hfees
  -- The small notes cover the spend alone.
  generalize hneeded : (spent + netWorth fee v - 1) / netWorth fee v = needed at hfees
  have hfloor : netWorth fee v * needed ≤ spent + netWorth fee v - 1 := by
    rw [← hneeded]
    exact Nat.mul_div_le _ _
  have hceil : spent ≤ netWorth fee v * needed := by
    have hdiv := Nat.lt_mul_div_succ (spent + netWorth fee v - 1) hpos
    rw [hneeded, Nat.mul_add] at hdiv
    omega
  have hused : min needed spent = needed := by
    refine Nat.min_eq_left ?_
    by_contra hlt
    have hmore : netWorth fee v * (spent + 1) ≤ netWorth fee v * needed := Nat.mul_le_mul_left _ (by omega)
    have hspent' : spent ≤ netWorth fee v * spent := Nat.le_mul_of_pos_left _ hpos
    rw [Nat.mul_add] at hmore
    omega
  rw [hused, Nat.sub_eq_zero_of_le hceil, takeCover_zero, List.append_nil, Multiset.coe_replicate, sumOf_replicate] at hfees
  rw [hfees, sumOf_replicate]
  refine Nat.lt_of_mul_lt_mul_left (a := netWorth fee v) ?_
  have hpaid : fee v * (netWorth fee v * needed) ≤ fee v * (spent + netWorth fee v) :=
    Nat.mul_le_mul_left _ (by omega)
  rw [Nat.mul_sub, Nat.mul_add] at hshare
  rw [Nat.mul_add] at hpaid
  have hworth : netWorth fee v * (needed * fee v + change) = fee v * (netWorth fee v * needed) + netWorth fee v * change := by
    ring
  have hspentFee : c * (fee v * netWorth fee w) = fee v * spent := by
    rw [← hspent]
    ring
  have hpaidFee : netWorth fee v * (c * fee w) = c * (fee w * netWorth fee v) := by ring
  have hcomm : fee v * netWorth fee v = netWorth fee v * fee v := Nat.mul_comm _ _
  rw [hworth, hpaidFee]
  rw [hspentFee] at hshare
  omega

end

end FiPayments
