import Fedi.FediFee.Ledger

/-!
# The split of a guardian remittance (`fedi_fee/guardian.rs`)

Each row of the outstanding breakdown is divided by the total weight `W` of the recipients, and its
whole units are remitted:

    remitted of a row        = ⌊row / W⌋ * W
    share of a recipient     = ⌊row / W⌋ * weight
    Σ shares of a row        = remitted of the row

A breakdown whose total fits in `u64` never fails a check of the plan (`remittance_split_exact`),
and a reservation of the plan leaves `row % W` of every row (`reserve_leaves_dust`).
-/

namespace FediFee

open BTreeMaps StabilityPool Runs

/-! ## Valid recipients -/

section
variable {C : Crypto} {recipients : List FediGuardianFeeRecipient} {totalWeight : ℕ}

theorem validateRecipients_ok {previous : Option AccountId} {sofar : ℕ}
    (h : validateRecipients C previous sofar recipients = .ok totalWeight) :
    totalWeight = sofar + (recipients.map fun r => r.weight).sum ∧ ∀ r ∈ recipients, 0 < r.weight := by
  induction recipients generalizing previous sofar with
  | nil =>
    cases h
    simp
  | cons r recipients ih =>
    obtain ⟨_, -, h⟩ := bind_eq_ok.mp h
    obtain ⟨_, -, h⟩ := bind_eq_ok.mp h
    obtain ⟨_, hpos, h⟩ := bind_eq_ok.mp h
    obtain ⟨_, -, h⟩ := bind_eq_ok.mp h
    obtain ⟨sofar', hadd, h⟩ := bind_eq_ok.mp h
    obtain ⟨hsum, hall⟩ := ih h
    have hr : r.weight ≠ 0 := ensure_eq_ok.mp hpos
    have hsofar := (checked_eq_ok.mp hadd).2
    rw [List.map_cons, List.sum_cons, List.forall_mem_cons]
    refine ⟨?_, ?_, hall⟩ <;> omega

/-- A valid policy has a positive total weight, which is the sum of its weights. -/
theorem validate_ok (h : validateGuardianFeeRecipients C recipients = .ok totalWeight) :
    (recipients.map fun r => r.weight).sum = totalWeight ∧ 0 < totalWeight := by
  obtain ⟨_, hcount, h⟩ := bind_eq_ok.mp h
  obtain ⟨hsum, hpos⟩ := validateRecipients_ok h
  obtain ⟨r, hr⟩ := List.exists_mem_of_ne_nil _ (ensure_eq_ok.mp hcount).1
  have hle : r.weight ≤ (recipients.map fun r => r.weight).sum := List.le_sum_of_mem (List.mem_map_of_mem hr)
  have := hpos r hr
  omega

end

/-! ## Whole units -/

/-- The rows of which a plan takes something. -/
def wholeRows (totalWeight : ℕ) (breakdown : Snapshot) : Snapshot :=
  breakdown.filter fun item => decide (totalWeight ≤ item.amount)

/-- What a weight gets of each row. -/
def sharesOf (totalWeight : ℕ) (breakdown : Snapshot) (weight : ℕ) : Snapshot :=
  (wholeRows totalWeight breakdown).map fun item => ⟨item.txType, weight * (item.amount / totalWeight)⟩

def unitsOf (totalWeight : ℕ) (breakdown : Snapshot) : ℕ :=
  (breakdown.map fun item => item.amount / totalWeight).sum

section
variable {totalWeight : ℕ}

@[simp] theorem total_nil : total [] = 0 := rfl

@[simp] theorem total_append (snapshot snapshot' : Snapshot) :
    total (snapshot ++ snapshot') = total snapshot + total snapshot' := by
  simp [total]

@[simp] theorem total_singleton (txType : TxType) (amount : ℕ) : total [⟨txType, amount⟩] = amount := by
  simp [total]

@[simp] theorem sharesOf_nil (weight : ℕ) : sharesOf totalWeight [] weight = [] := rfl

theorem sharesOf_append (before after : Snapshot) (weight : ℕ) :
    sharesOf totalWeight (before ++ after) weight =
      sharesOf totalWeight before weight ++ sharesOf totalWeight after weight := by
  simp [sharesOf, wholeRows]

/-- A row of less than a unit is left out. -/
theorem sharesOf_singleton_of_lt {item : GuardianFeeRemittanceBreakdownItem} (h : item.amount < totalWeight)
    (weight : ℕ) : sharesOf totalWeight [item] weight = [] := by
  simp [sharesOf, wholeRows, h]

theorem sharesOf_singleton_of_le {item : GuardianFeeRemittanceBreakdownItem} (h : totalWeight ≤ item.amount)
    (weight : ℕ) :
    sharesOf totalWeight [item] weight = [⟨item.txType, weight * (item.amount / totalWeight)⟩] := by
  simp [sharesOf, wholeRows, h]

theorem total_sharesOf (breakdown : Snapshot) (weight : ℕ) :
    total (sharesOf totalWeight breakdown weight) = weight * unitsOf totalWeight breakdown := by
  induction breakdown with
  | nil => simp [unitsOf]
  | cons item breakdown ih =>
    have hunits : unitsOf totalWeight (item :: breakdown) =
        item.amount / totalWeight + unitsOf totalWeight breakdown := by
      simp [unitsOf]
    rw [← List.singleton_append, sharesOf_append, total_append, ih, List.singleton_append, hunits, Nat.mul_add]
    by_cases h : totalWeight ≤ item.amount
    · rw [sharesOf_singleton_of_le h, total_singleton]
    · have hlt : item.amount < totalWeight := by omega
      rw [sharesOf_singleton_of_lt hlt, Nat.div_eq_of_lt hlt, total_nil, Nat.mul_zero]

/-- The whole units of all rows are no more than the rows. -/
theorem mul_unitsOf_le (totalWeight : ℕ) (breakdown : Snapshot) :
    totalWeight * unitsOf totalWeight breakdown ≤ total breakdown := by
  induction breakdown with
  | nil => simp [unitsOf]
  | cons item breakdown ih =>
    have hrow := Nat.mul_div_le item.amount totalWeight
    unfold unitsOf total at ih ⊢
    rw [List.map_cons, List.sum_cons, List.map_cons, List.sum_cons, Nat.mul_add]
    omega

/-! ## The loops succeed -/

theorem checked_of_lt {n : ℕ} (msg : String) (h : n < 2 ^ 64) : checked n msg = .ok n := if_pos h

theorem checkedAmountSum_of_lt {amounts : List ℕ} {sofar : ℕ} (h : sofar + amounts.sum < 2 ^ 64) :
    checkedAmountSum sofar amounts = .ok (sofar + amounts.sum) := by
  induction amounts generalizing sofar with
  | nil => rfl
  | cons amount amounts ih =>
    rw [List.sum_cons, ← Nat.add_assoc] at h ⊢
    have hadd : checkedAmountAdd sofar amount = .ok (sofar + amount) := checked_of_lt _ (by omega)
    rw [checkedAmountSum, hadd]
    exact ih h

/-- A recipient after the rows of `breakdown`. -/
def shareAfter (totalWeight : ℕ) (breakdown : Snapshot) (r : FediGuardianFeeRecipient) : RecipientShare :=
  (r, r.weight * unitsOf totalWeight breakdown, sharesOf totalWeight breakdown r.weight)

theorem addShare_after {breakdown : Snapshot} {item : GuardianFeeRemittanceBreakdownItem}
    {r : FediGuardianFeeRecipient} (hrow : totalWeight ≤ item.amount)
    (hfits : r.weight * unitsOf totalWeight (breakdown ++ [item]) < 2 ^ 64) :
    addShare item.txType (item.amount / totalWeight) (shareAfter totalWeight breakdown r) =
      .ok (shareAfter totalWeight (breakdown ++ [item]) r) := by
  have hunits : unitsOf totalWeight (breakdown ++ [item]) =
      unitsOf totalWeight breakdown + item.amount / totalWeight := by
    simp [unitsOf]
  rw [hunits, Nat.mul_add] at hfits
  have hshare : checked (item.amount / totalWeight * r.weight) "guardian fee recipient share overflow" =
      .ok (r.weight * (item.amount / totalWeight)) := by
    rw [Nat.mul_comm]
    exact checked_of_lt _ (by omega)
  have hamount : checkedAmountAdd (r.weight * unitsOf totalWeight breakdown) (r.weight * (item.amount / totalWeight)) =
      .ok (r.weight * unitsOf totalWeight breakdown + r.weight * (item.amount / totalWeight)) := checked_of_lt _ hfits
  show (checked (item.amount / totalWeight * r.weight) _ >>= fun share =>
    checkedAmountAdd (r.weight * unitsOf totalWeight breakdown) share >>= fun amount =>
      .ok (r, amount, sharesOf totalWeight breakdown r.weight ++ [⟨item.txType, share⟩])) = _
  rw [hshare, ok_bind, hamount, ok_bind, shareAfter, hunits, Nat.mul_add, sharesOf_append,
    sharesOf_singleton_of_le hrow]

/-- The loop over the breakdown: what it has after `before` it has after all rows. -/
theorem splitBreakdown_ok {recipients : List FediGuardianFeeRecipient} (hpos : 0 < totalWeight)
    (hle : ∀ r ∈ recipients, r.weight ≤ totalWeight) {before after : Snapshot}
    (hfits : total (before ++ after) < 2 ^ 64) :
    splitBreakdown totalWeight (sharesOf totalWeight before totalWeight)
        (recipients.map (shareAfter totalWeight before)) after =
      .ok (sharesOf totalWeight (before ++ after) totalWeight,
        recipients.map (shareAfter totalWeight (before ++ after))) := by
  induction after generalizing before with
  | nil =>
    rw [List.append_nil]
    rfl
  | cons item after ih =>
    have happend : before ++ item :: after = before ++ [item] ++ after := by simp
    rw [happend] at hfits
    have hrest := ih hfits
    rw [happend, ← hrest, splitBreakdown]
    have hunits := mul_unitsOf_le totalWeight (before ++ [item])
    rw [total_append] at hfits
    by_cases hrow : totalWeight ≤ item.amount
    · have hne : item.amount / totalWeight ≠ 0 := (Nat.div_pos hrow hpos).ne'
      have hremitted : checked (item.amount / totalWeight * totalWeight) "guardian fee remittance amount overflow" =
          .ok (totalWeight * (item.amount / totalWeight)) := by
        have := Nat.div_mul_le_self item.amount totalWeight
        rw [total_append] at hfits
        have hitem : item.amount ≤ total [item] := by simp [total]
        rw [checked_of_lt _ (by omega), Nat.mul_comm]
      have hshares : (recipients.map (shareAfter totalWeight before)).mapM
          (addShare item.txType (item.amount / totalWeight)) =
            .ok (recipients.map (shareAfter totalWeight (before ++ [item]))) := by
        rw [List.mapM_map]
        refine mapM_ok_of fun r hr => addShare_after hrow ?_
        have := Nat.mul_le_mul_right (unitsOf totalWeight (before ++ [item])) (hle r hr)
        omega
      rw [if_neg hne, hremitted, ok_bind, hshares, ok_bind, sharesOf_append before [item],
        sharesOf_singleton_of_le hrow]
    · have hlt : item.amount < totalWeight := by omega
      have hsame : shareAfter totalWeight (before ++ [item]) = shareAfter totalWeight before := by
        funext r
        unfold shareAfter
        rw [sharesOf_append, sharesOf_singleton_of_lt hlt, List.append_nil]
        simp [unitsOf, Nat.div_eq_of_lt hlt]
      rw [if_pos (Nat.div_eq_of_lt hlt), sharesOf_append before [item], sharesOf_singleton_of_lt hlt, List.append_nil,
        hsame]

/-- The plan that the weights prescribe. -/
def weightedPlan (totalWeight : ℕ) (breakdown : Snapshot) (recipients : List FediGuardianFeeRecipient) :
    GuardianFeeRemittancePlan where
  amount := totalWeight * unitsOf totalWeight breakdown
  snapshot := sharesOf totalWeight breakdown totalWeight
  recipients := recipients.map fun r =>
    ⟨r.account, r.weight * unitsOf totalWeight breakdown, sharesOf totalWeight breakdown r.weight⟩

theorem planOfSplit_ok {recipients : List FediGuardianFeeRecipient} {breakdown : Snapshot}
    (hsum : (recipients.map fun r => r.weight).sum = totalWeight) (hfits : total breakdown < 2 ^ 64) :
    planOfSplit (sharesOf totalWeight breakdown totalWeight) (recipients.map (shareAfter totalWeight breakdown)) =
      .ok (weightedPlan totalWeight breakdown recipients) := by
  have hunits := mul_unitsOf_le totalWeight breakdown
  have hsums : ∀ weight ≤ totalWeight, checkedAmountSum 0 ((sharesOf totalWeight breakdown weight).map fun item =>
      item.amount) = .ok (weight * unitsOf totalWeight breakdown) := by
    intro weight hle
    have hweight := Nat.mul_le_mul_right (unitsOf totalWeight breakdown) hle
    have htotal : ((sharesOf totalWeight breakdown weight).map fun item => item.amount).sum =
        weight * unitsOf totalWeight breakdown := total_sharesOf breakdown weight
    have hok := @checkedAmountSum_of_lt ((sharesOf totalWeight breakdown weight).map fun item => item.amount) 0
      (by omega)
    rw [hok, htotal, Nat.zero_add]
  have hremittances : (recipients.map (shareAfter totalWeight breakdown)).mapM recipientRemittance =
      .ok (weightedPlan totalWeight breakdown recipients).recipients := by
    rw [List.mapM_map]
    refine mapM_ok_of fun r hr => ?_
    have hle : r.weight ≤ totalWeight := hsum ▸ List.le_sum_of_mem (List.mem_map_of_mem hr)
    show (checkedAmountSum 0 ((sharesOf totalWeight breakdown r.weight).map fun item => item.amount) >>= fun total =>
      ensure (total = r.weight * unitsOf totalWeight breakdown) _ >>= fun _ => _) = _
    rw [hsums r.weight hle, ok_bind, (@ensure_eq_ok _ _ _ ()).mpr rfl]
    rfl
  have hconserved : ((weightedPlan totalWeight breakdown recipients).recipients.map fun r => r.amount).sum =
      totalWeight * unitsOf totalWeight breakdown := by
    unfold weightedPlan
    rw [List.map_map, ← hsum, ← List.sum_map_mul_right]
    rfl
  have hrecipients := @checkedAmountSum_of_lt
    ((weightedPlan totalWeight breakdown recipients).recipients.map fun r => r.amount) 0 (by omega)
  rw [hconserved, Nat.zero_add] at hrecipients
  rw [planOfSplit, hremittances, ok_bind, hsums totalWeight le_rfl, ok_bind, hrecipients, ok_bind,
    (@ensure_eq_ok _ _ _ ()).mpr rfl]
  rfl

/-- A plan is made when a row has a unit and every recipient's units reach the minimum. -/
theorem planGuardianFeeRemittance_eq {C : Crypto} {recipients : List FediGuardianFeeRecipient} {breakdown : Snapshot}
    (minimum : ℕ) (hvalid : validateGuardianFeeRecipients C recipients = .ok totalWeight)
    (hfits : total breakdown < 2 ^ 64) :
    planGuardianFeeRemittance C breakdown recipients minimum =
      .ok (if (∃ item ∈ breakdown, totalWeight ≤ item.amount) ∧
          ∀ r ∈ recipients, minimum ≤ r.weight * unitsOf totalWeight breakdown then
        some (weightedPlan totalWeight breakdown recipients) else none) := by
  obtain ⟨hsum, hpos⟩ := validate_ok hvalid
  have hle : ∀ r ∈ recipients, r.weight ≤ totalWeight := by
    intro r hr
    exact hsum ▸ List.le_sum_of_mem (List.mem_map_of_mem hr)
  have hsplit : splitBreakdown totalWeight [] (recipients.map fun r => (r, 0, [])) breakdown =
      .ok (sharesOf totalWeight breakdown totalWeight, recipients.map (shareAfter totalWeight breakdown)) :=
    @splitBreakdown_ok totalWeight recipients hpos hle [] breakdown hfits
  have hrows : sharesOf totalWeight breakdown totalWeight = [] ↔ ¬∃ item ∈ breakdown, totalWeight ≤ item.amount := by
    simp [sharesOf, wholeRows]
  have hshort : (∃ r ∈ recipients.map (shareAfter totalWeight breakdown), r.2.1 < minimum) ↔
      ¬∀ r ∈ recipients, minimum ≤ r.weight * unitsOf totalWeight breakdown := by
    simp [shareAfter]
  rw [planGuardianFeeRemittance, hvalid, ok_bind, hsplit, ok_bind]
  dsimp only
  by_cases hmade : (∃ item ∈ breakdown, totalWeight ≤ item.amount) ∧
      ∀ r ∈ recipients, minimum ≤ r.weight * unitsOf totalWeight breakdown
  · rw [if_neg, if_pos hmade, planOfSplit_ok hsum hfits]
    · rfl
    · rw [hrows, hshort, ← not_and_or]
      exact not_not.mpr hmade
  · rw [if_pos, if_neg hmade]
    rw [hrows, hshort, ← not_and_or]
    exact hmade

end

/-! ## What a plan remits -/

/-- Every row is divided by the weights, and keeps less than a unit. -/
structure WeightedSplit (totalWeight : ℕ) (breakdown : Snapshot) (recipients : List FediGuardianFeeRecipient)
    (plan : GuardianFeeRemittancePlan) : Prop where
  /-- A row of less than a unit is not in the plan: nothing of it is remitted. -/
  rows : plan.snapshot = (breakdown.filter fun item => decide (totalWeight ≤ item.amount)).map fun item =>
    ⟨item.txType, totalWeight * (item.amount / totalWeight)⟩
  shares : plan.recipients.map (fun r => (r.account, r.snapshot)) = recipients.map fun r =>
    (r.account, (breakdown.filter fun item => decide (totalWeight ≤ item.amount)).map fun item =>
      ⟨item.txType, r.weight * (item.amount / totalWeight)⟩)
  amounts : ∀ r ∈ plan.recipients, r.amount = total r.snapshot
  conserved : (plan.recipients.map fun r => r.amount).sum = plan.amount
  amount : plan.amount = total plan.snapshot
  dust : ∀ item ∈ breakdown, item.amount - totalWeight * (item.amount / totalWeight) < totalWeight

/-- A plan never fails, is made exactly when a row has a unit and every recipient gets the minimum, and
then splits every row by weight. -/
theorem remittance_split_exact (C : Crypto) (breakdown : Snapshot) (recipients : List FediGuardianFeeRecipient)
    (totalWeight minimum : ℕ) (hfits : total breakdown < 2 ^ 64)
    (hvalid : validateGuardianFeeRecipients C recipients = .ok totalWeight) :
    ∃ planned, planGuardianFeeRemittance C breakdown recipients minimum = .ok planned ∧
      (planned.isSome = true ↔ (∃ item ∈ breakdown, totalWeight ≤ item.amount) ∧
        ∀ r ∈ recipients, minimum ≤ (breakdown.map fun item => r.weight * (item.amount / totalWeight)).sum) ∧
      ∀ plan ∈ planned, WeightedSplit totalWeight breakdown recipients plan := by
  have heq := planGuardianFeeRemittance_eq minimum hvalid hfits
  obtain ⟨hsum, hpos⟩ := validate_ok hvalid
  have hamounts : ∀ r : FediGuardianFeeRecipient,
      (breakdown.map fun item => r.weight * (item.amount / totalWeight)).sum =
        r.weight * unitsOf totalWeight breakdown := by
    intro r
    rw [List.sum_map_mul_left]
    rfl
  refine ⟨_, heq, ?_, ?_⟩
  · simp only [hamounts]
    by_cases hmade : (∃ item ∈ breakdown, totalWeight ≤ item.amount) ∧
        ∀ r ∈ recipients, minimum ≤ r.weight * unitsOf totalWeight breakdown
    · rw [if_pos hmade]
      exact ⟨fun _ => hmade, fun _ => rfl⟩
    · rw [if_neg hmade]
      exact ⟨fun hnone => absurd hnone (by simp), fun h => absurd h hmade⟩
  · intro plan hplan
    rw [Option.mem_def, Option.ite_none_right_eq_some] at hplan
    obtain ⟨-, hplan⟩ := hplan
    cases hplan
    refine ⟨rfl, ?_, ?_, ?_, (total_sharesOf breakdown totalWeight).symm, ?_⟩
    · rw [weightedPlan, List.map_map]
      rfl
    · intro r hr
      obtain ⟨r', -, rfl⟩ := List.mem_map.mp hr
      exact (total_sharesOf breakdown r'.weight).symm
    · rw [weightedPlan, List.map_map]
      show (recipients.map fun r => r.weight * unitsOf totalWeight breakdown).sum = _
      rw [List.sum_map_mul_right, hsum]
    · intro item _
      have := Nat.mod_lt item.amount hpos
      have := Nat.mod_add_div item.amount totalWeight
      omega

/-- Rows of 1000 and 2 msats for weights 2 and 1: a msat of the first row stays, and all of the second. -/
theorem remittance_split_exact_demo : ∃ planned,
    planGuardianFeeRemittance demoHashes [⟨⟨7, .send⟩, 1000⟩, ⟨⟨7, .receive⟩, 2⟩] (demoSubmission 1 0).recipients 100 =
        .ok planned ∧
      (planned.isSome = true ↔ (∃ item ∈ ([⟨⟨7, .send⟩, 1000⟩, ⟨⟨7, .receive⟩, 2⟩] : Snapshot), 3 ≤ item.amount) ∧
        ∀ r ∈ (demoSubmission 1 0).recipients, 100 ≤
          (([⟨⟨7, .send⟩, 1000⟩, ⟨⟨7, .receive⟩, 2⟩] : Snapshot).map fun item => r.weight * (item.amount / 3)).sum) ∧
      ∀ plan ∈ planned, WeightedSplit 3 [⟨⟨7, .send⟩, 1000⟩, ⟨⟨7, .receive⟩, 2⟩] (demoSubmission 1 0).recipients
        plan :=
  remittance_split_exact demoHashes [⟨⟨7, .send⟩, 1000⟩, ⟨⟨7, .receive⟩, 2⟩] (demoSubmission 1 0).recipients 3 100
    (by decide) (by rfl)

/-! ## What stays of the ledger -/

section
variable {rows : BTreeMap TxType ℕ}

theorem getD_writeRows_of_not_mem {l : List (TxType × ℕ)} {t : TxType} (h : t ∉ l.map Prod.fst) :
    (writeRows rows l).getD t 0 = rows.getD t 0 := by
  induction l generalizing rows with
  | nil => rfl
  | cons e l ih =>
    rw [List.map_cons, List.mem_cons, not_or] at h
    unfold writeRows at ih ⊢
    rw [List.foldl_cons, ih h.2, BTreeMap.getD_insert_ne _ _ _ h.1]

/-- A row that is written holds what was written. -/
theorem getD_writeRows_of_mem {l : List (TxType × ℕ)} (hkeys : (l.map Prod.fst).Nodup) {t : TxType} {amount : ℕ}
    (h : (t, amount) ∈ l) : (writeRows rows l).getD t 0 = amount := by
  induction l generalizing rows with
  | nil => cases h
  | cons e l ih =>
    rw [List.map_cons, List.nodup_cons] at hkeys
    rcases List.mem_cons.mp h with rfl | hrest
    · have hlast := @getD_writeRows_of_not_mem (rows.insert t amount) l t hkeys.1
      rw [writeRows, List.foldl_cons]
      unfold writeRows at hlast
      rw [hlast, BTreeMap.getD_insert_self]
    · exact @ih (rows.insert e.1 e.2) hkeys.2 hrest

theorem remainingRow_of_le {item : GuardianFeeRemittanceBreakdownItem} (h : item.amount ≤ rows.getD item.txType 0) :
    remainingRow rows item = .ok (item.txType, rows.getD item.txType 0 - item.amount) := by
  unfold remainingRow
  exact if_pos h

end

/-- An item of the breakdown is the row of its key. -/
theorem getD_of_mem_outstandingBreakdown {l : StreamLedger} {item : GuardianFeeRemittanceBreakdownItem}
    (h : item ∈ outstandingBreakdown l) : l.outstandingPerTxType.getD item.txType 0 = item.amount := by
  obtain ⟨e, he, rfl⟩ := List.mem_map.mp (List.mem_of_mem_filter h)
  exact BTreeMap.getD_of_get? (BTreeMap.mem_entries.mp he) 0

/-- A plan of the ledger's own breakdown is reserved, and leaves less than a unit in every row. -/
theorem reserve_leaves_dust {C : Crypto} {dbtx : FediFeeDb} {recipients : List FediGuardianFeeRecipient}
    {totalWeight minimum : ℕ} {plan : GuardianFeeRemittancePlan} (operationId : OperationId)
    (htotal : dbtx.guardian.outstanding = dbtx.guardian.breakdownTotal) (hfits : dbtx.guardian.outstanding < 2 ^ 64)
    (hvalid : validateGuardianFeeRecipients C recipients = .ok totalWeight)
    (hplan : planGuardianFeeRemittance C (outstandingBreakdown dbtx.guardian) recipients minimum = .ok (some plan)) :
    ∃ dbtx', reserveGuardianFeeRemittanceDbtx dbtx operationId plan.amount plan.snapshot = .ok dbtx' ∧
      ∀ txType, dbtx'.guardian.outstandingPerTxType.getD txType 0 =
        dbtx.guardian.outstandingPerTxType.getD txType 0 % totalWeight := by
  obtain ⟨-, hpos⟩ := validate_ok hvalid
  have hbreakdown : total (outstandingBreakdown dbtx.guardian) < 2 ^ 64 := by
    rw [total_outstandingBreakdown]
    omega
  have htaken := total_outstandingBreakdown dbtx.guardian
  have heq := planGuardianFeeRemittance_eq minimum hvalid hbreakdown
  rw [hplan, Except.ok.injEq] at heq
  obtain ⟨-, hmade⟩ := Option.ite_none_right_eq_some.mp heq.symm
  cases hmade
  have hamount := mul_unitsOf_le totalWeight (outstandingBreakdown dbtx.guardian)
  have hrows : (sharesOf totalWeight (outstandingBreakdown dbtx.guardian) totalWeight).mapM
      (remainingRow dbtx.guardian.outstandingPerTxType) =
        .ok ((wholeRows totalWeight (outstandingBreakdown dbtx.guardian)).map fun item =>
          (item.txType, dbtx.guardian.outstandingPerTxType.getD item.txType 0 % totalWeight)) := by
    unfold sharesOf
    rw [List.mapM_map]
    refine mapM_ok_of fun item hitem => ?_
    have hrow := getD_of_mem_outstandingBreakdown (List.mem_of_mem_filter hitem)
    have hdiv := Nat.mod_add_div item.amount totalWeight
    rw [Function.comp_apply, remainingRow_of_le]
    · simp only [hrow, Except.ok.injEq, Prod.mk.injEq, true_and]
      omega
    · simp only [hrow]
      omega
  have hsnapshot : (weightedPlan totalWeight (outstandingBreakdown dbtx.guardian) recipients).snapshot =
      sharesOf totalWeight (outstandingBreakdown dbtx.guardian) totalWeight := rfl
  have hle : (weightedPlan totalWeight (outstandingBreakdown dbtx.guardian) recipients).amount ≤
      dbtx.guardian.outstanding := by
    show totalWeight * unitsOf totalWeight (outstandingBreakdown dbtx.guardian) ≤ _
    omega
  unfold reserveGuardianFeeRemittanceDbtx
  dsimp only
  rw [if_pos hle, hsnapshot, hrows, ok_bind]
  refine ⟨_, rfl, ?_⟩
  intro txType
  show (writeRows dbtx.guardian.outstandingPerTxType _).getD txType 0 = _
  have hkeys := outstandingBreakdown_keys dbtx.guardian
  by_cases hwhole : ∃ item ∈ wholeRows totalWeight (outstandingBreakdown dbtx.guardian), item.txType = txType
  · obtain ⟨item, hitem, rfl⟩ := hwhole
    refine getD_writeRows_of_mem ?_ (List.mem_map_of_mem hitem)
    rw [List.map_map]
    exact (hkeys.sublist (List.filter_sublist.map _))
  · rw [getD_writeRows_of_not_mem]
    · -- a row that the plan leaves alone has less than a unit
      rw [Nat.mod_eq_of_lt]
      by_contra hle
      refine hwhole ⟨⟨txType, dbtx.guardian.outstandingPerTxType.getD txType 0⟩, ?_, rfl⟩
      unfold wholeRows outstandingBreakdown
      rw [List.mem_filter, List.mem_filter, List.mem_map]
      have hne : dbtx.guardian.outstandingPerTxType.getD txType 0 ≠ 0 := by omega
      refine ⟨⟨⟨(txType, dbtx.guardian.outstandingPerTxType.getD txType 0), ?_, rfl⟩, by simpa using hne⟩, by
        simpa using hle⟩
      rw [BTreeMap.mem_entries]
      unfold BTreeMap.getD at hne ⊢
      cases hget : dbtx.guardian.outstandingPerTxType.get? txType with
      | none =>
        rw [hget] at hne
        exact absurd rfl hne
      | some amount => rfl
    · rw [List.map_map, List.mem_map]
      exact hwhole

end FediFee
