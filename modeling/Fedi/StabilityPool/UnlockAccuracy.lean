import Fedi.StabilityPool.FiatConversion
import Fedi.StabilityPool.Releases

/-!
# How exactly an unlock of a fiat amount is served

What is staged is drained to the msat; the rest goes into a request in fiat, rounded down, and
is worth the rest rounded down twice:

    granted ≤ amount ≤ granted + ⌈MSATS_PER_BTC / price⌉               (unlock_accuracy)

Nothing is lost exactly when the price times the rest is whole (`expand_shrink_eq_iff`).
-/

namespace StabilityPool

open BTreeMaps FloorConversion Runs

/-- The fiat amount that an account has requested to unlock, zero without a request; nothing for
a request of all. -/
def Db.registeredFiat (db : Db) (a : AccountId) : Option ℕ :=
  match db.unlockRequests.get? a with
  | none => some 0
  | some req =>
    match req.unlockAmount with
    | .fiat fiat => some fiat
    | .all => none

section
variable {C : Crypto} {s : Side} {db : Db} {txid : TransactionId} {a : AccountId}
  {fiat lockedSum price amount : ℕ}

theorem registeredFiat_of_none (h : db.unlockRequests.get? a = none) : db.registeredFiat a = some 0 := by
  unfold Db.registeredFiat
  rw [h]

theorem registeredFiat_insert {req : UnlockRequest} (h : req.unlockAmount = .fiat fiat) {db' : Db}
    (hdb : db'.unlockRequests = db.unlockRequests.insert a req) : db'.registeredFiat a = some fiat := by
  unfold Db.registeredFiat
  rw [hdb, BTreeMap.get?_insert_self]
  dsimp only
  rw [h]

/-- An unlock that both balances cover: what it drains, and the floor of the rest in fiat. -/
theorem unlockFiat_granted (hfiat : fiat < 2 ^ 64) (hopen : db.unlockRequests.get? a = none)
    (hamount : FiatAmount.toBtcAmount fiat price = .ok amount)
    (hbalance : amount ≤ amountSum ((db.staged s).getD a []) + lockedSum) :
    ∃ r, unlockFiat s db txid a fiat lockedSum price = .ok r ∧
      r.1.registeredFiat a =
        some (shrink price MSATS_PER_BTC (amount - min amount (amountSum ((db.staged s).getD a [])))) ∧
      min amount (amountSum ((db.staged s).getD a [])) + amountSum ((r.1.staged s).getD a []) =
        amountSum ((db.staged s).getD a []) := by
  have hsplit := (drainInReverse_splits ((db.staged s).getD a []) amount).amountSum_eq
  rw [amountSum_drainInReverse] at hsplit
  unfold unlockFiat
  dsimp only
  rw [mapErr_eq_ok.mpr hamount, ok_bind, if_neg (not_lt.mpr hbalance)]
  by_cases hstaged : ((db.staged s).getD a []).isEmpty
  · have hnil := List.isEmpty_iff.mp hstaged
    obtain ⟨leftover, hleftover⟩ := fromBtcAmount_of_le hfiat hamount le_rfl
    have hfloor := (FiatAmount.fromBtcAmount_ok_iff.mp hleftover).1
    simp only [hnil, List.isEmpty_nil, if_true, amountSum_nil, Nat.min_zero, Nat.sub_zero, Nat.zero_add]
    rw [subP_of_le (Nat.zero_le _), ok_bind, Nat.sub_zero]
    by_cases hneeded : amount = 0
    · rw [if_neg (not_not.mpr hneeded), hneeded]
      exact ⟨_, rfl, by rw [registeredFiat_of_none hopen]; simp [shrink], by rw [hnil]; rfl⟩
    · rw [if_pos hneeded, mapErr_eq_ok.mpr hleftover, ok_bind, ← hfloor]
      refine ⟨_, rfl, registeredFiat_insert rfl rfl, ?_⟩
      cases s <;> exact congrArg amountSum hnil
  · have hdrained := amountSum_drainInReverse ((db.staged s).getD a []) amount
    have hle : min amount (amountSum ((db.staged s).getD a [])) ≤ amount := min_le_left _ _
    obtain ⟨leftover, hleftover⟩ := fromBtcAmount_of_le hfiat hamount
      (Nat.sub_le amount (min amount (amountSum ((db.staged s).getD a []))))
    have hfloor := (FiatAmount.fromBtcAmount_ok_iff.mp hleftover).1
    have hkept : ∀ reqs, amountSum (((({ db.setStaged s ((db.staged s).insert a
        (drainInReverse ((db.staged s).getD a []) amount).1) with unlockRequests := reqs } : Db).staged s)).getD a []) =
        amountSum (drainInReverse ((db.staged s).getD a []) amount).1 := by
      intro reqs
      have hself := BTreeMap.getD_insert_self (db.staged s) a (drainInReverse ((db.staged s).getD a []) amount).1 []
      cases s <;> exact congrArg amountSum hself
    simp only [if_neg hstaged, hdrained]
    rw [subP_of_le hle, ok_bind]
    by_cases hneeded : amount - min amount (amountSum ((db.staged s).getD a [])) = 0
    · rw [if_neg (not_not.mpr hneeded), hneeded]
      refine ⟨_, rfl, ?_, ?_⟩
      · rw [registeredFiat_of_none (by rw [setStaged_unlockRequests]; exact hopen)]
        simp [shrink]
      · have hsame := hkept db.unlockRequests
        rw [setStaged_unlockRequests db s _ |>.symm] at hsame
        rw [show amountSum _ = _ from hsame]
        omega
    · rw [if_pos hneeded, mapErr_eq_ok.mpr hleftover, ok_bind, ← hfloor]
      refine ⟨_, rfl, registeredFiat_insert rfl rfl, ?_⟩
      rw [hkept]
      omega

variable {input : UnlockForWithdrawalInput} {locked : List (Deposit s.Meta)} {cycle : Cycle} {key : PublicKey}

/-- The same of the whole input, which credits the idle balance besides. -/
theorem processUnlockInputInner_granted (hrequested : input.amount = .fiat fiat) (hfiat : fiat < 2 ^ 64)
    (hsingle : input.account.asSingle = some key) (hopen : db.unlockRequests.get? (input.account.id C) = none)
    (hamount : FiatAmount.toBtcAmount fiat cycle.startPrice = .ok amount)
    (hbalance : amount ≤ amountSum ((db.staged s).getD (input.account.id C) []) + amountSum locked) :
    ∃ r, processUnlockInputInner C s db txid input locked cycle = .ok r ∧
      r.1.registeredFiat (input.account.id C) = some (shrink cycle.startPrice MSATS_PER_BTC
        (amount - min amount (amountSum ((db.staged s).getD (input.account.id C) [])))) ∧
      min amount (amountSum ((db.staged s).getD (input.account.id C) [])) +
          amountSum ((r.1.staged s).getD (input.account.id C) []) =
        amountSum ((db.staged s).getD (input.account.id C) []) := by
  obtain ⟨u, hu, hregistered, hkept⟩ := @unlockFiat_granted s db txid _ fiat _ _ _ hfiat hopen hamount hbalance
  obtain ⟨idle, hcredit, -⟩ := creditIdleBalance_of_ne u.1 (input.account.id C) (amountSum u.2)
  unfold processUnlockInputInner
  dsimp only
  rw [hopen, hrequested]
  simp only [Option.isSome_none, Bool.false_eq_true, if_false, unlockStaged]
  rw [hu, ok_bind, hcredit, addAccountHistoryItems_eq]
  unfold singleKey
  rw [hsingle]
  refine ⟨_, rfl, hregistered, ?_⟩
  cases s <;> exact hkept

end

/-! ## Two unlocks that fall short -/

/-- A seeker with staged deposits only. -/
def demoStaged (deposits : List Seek) : Db :=
  { Db.initial with stagedSeeks := BTreeMap.empty.insert (demoSeeker.id demoCrypto) deposits }

/-- A cycle at a price, without locks. -/
def demoCycle (price : ℕ) : Cycle := ⟨0, 1000, price, ⟨0⟩, .empty, .empty⟩

/-- What is left staged, and the fiat amount requested, after an unlock by that seeker. -/
def demoUnlock (deposits locked : List Seek) (fiat price : ℕ) : Option (ℕ × Option ℕ) :=
  (processUnlockInputInner demoCrypto .seek (demoStaged deposits) 9 ⟨demoSeeker, .fiat fiat⟩ locked
    (demoCycle price)).toOption.map fun r =>
      (amountSum ((r.1.staged .seek).getD (demoSeeker.id demoCrypto) []),
        r.1.registeredFiat (demoSeeker.id demoCrypto))

/-- Four cents at seven cents, one msat less than a cent's worth of it staged, fall short by a
whole cent's worth; and a cent at three cents, all of it locked, is forgotten. -/
theorem unlock_falls_short :
    (demoUnlock [⟨1, 0, 14285714285, ()⟩] [⟨2, 1, 50000000000, ()⟩] 4 7 = some (0, some 2) ∧
      FiatAmount.toBtcAmount 4 7 = .ok 57142857142 ∧ FiatAmount.toBtcAmount 2 7 = .ok 28571428571 ∧
      ¬ 57142857142 - (14285714285 + 28571428571) < (MSATS_PER_BTC + 7 - 1) / 7) ∧
    (demoUnlock [] [⟨2, 1, 50000000000, ()⟩] 1 3 = some (0, some 0) ∧
      FiatAmount.toBtcAmount 1 3 = .ok 33333333333 ∧ FiatAmount.toBtcAmount 0 3 = .ok 0) := by
  decide +kernel

/-! ## How close an unlock comes -/

section
variable {C : Crypto} {s : Side} {db : Db} {txid : TransactionId} {fiat amount : ℕ}
  {input : UnlockForWithdrawalInput} {locked : List (Deposit s.Meta)} {cycle : Cycle} {key : PublicKey}

/-- What is drained and what is requested together: never more than the amount asked for, short
of it by at most one fiat unit's worth of msats, and all of it when the rest is a whole number
of fiat units. -/
theorem unlock_accuracy (hpos : 0 < cycle.startPrice) (hprice : cycle.startPrice ≤ MSATS_PER_BTC)
    (hrequested : input.amount = .fiat fiat) (hfiat : fiat < 2 ^ 64)
    (hsingle : input.account.asSingle = some key) (hopen : db.unlockRequests.get? (input.account.id C) = none)
    (hamount : FiatAmount.toBtcAmount fiat cycle.startPrice = .ok amount)
    (hbalance : amount ≤ amountSum ((db.staged s).getD (input.account.id C) []) + amountSum locked) :
    ∃ r drained leftoverFiat requested, processUnlockInputInner C s db txid input locked cycle = .ok r ∧
      drained + amountSum ((r.1.staged s).getD (input.account.id C) []) =
        amountSum ((db.staged s).getD (input.account.id C) []) ∧
      r.1.registeredFiat (input.account.id C) = some leftoverFiat ∧
      FiatAmount.toBtcAmount leftoverFiat cycle.startPrice = .ok requested ∧
      drained + requested ≤ amount ∧
      amount ≤ drained + requested + (MSATS_PER_BTC + cycle.startPrice - 1) / cycle.startPrice ∧
      (drained + requested = amount ↔ MSATS_PER_BTC ∣ (amount - drained) * cycle.startPrice) ∧
      (drained = 0 → (drained + requested = amount ↔ cycle.startPrice ∣ fiat * MSATS_PER_BTC)) := by
  obtain ⟨r, hr, hregistered, hkept⟩ := @processUnlockInputInner_granted C s db txid fiat amount input locked cycle key
    hrequested hfiat hsingle hopen hamount hbalance
  obtain ⟨hworth, hlt⟩ := (FiatAmount.toBtcAmount_ok_iff hpos).mp hamount
  set drained := min amount (amountSum ((db.staged s).getD (input.account.id C) []))
  have hdrained : drained ≤ amount := min_le_left _ _
  have hbelow := expand_shrink_le cycle.startPrice MSATS_PER_BTC (amount - drained)
  have habove := le_expand_shrink hpos FiatAmount.msatsPerBtc_pos (amount - drained)
  have hwhole := expand_shrink_eq_iff (K := MSATS_PER_BTC) hpos (amount - drained)
  have hsum : drained + expand cycle.startPrice MSATS_PER_BTC (shrink cycle.startPrice MSATS_PER_BTC (amount - drained)) =
      amount ↔ MSATS_PER_BTC ∣ (amount - drained) * cycle.startPrice := by
    rw [← hwhole]
    omega
  refine ⟨r, drained, _, _, hr, hkept, hregistered,
    (FiatAmount.toBtcAmount_ok_iff hpos).mpr ⟨rfl, by omega⟩, by omega, by omega, hsum, fun hnone => ?_⟩
  rw [hsum, hnone, Nat.sub_zero, hworth]
  exact shrink_expand_eq_iff hpos hprice fiat

end

/-- The seeker with two cents' worth staged and two locked, at ten thousand dollars. -/
theorem unlock_accuracy_demo :
    ∃ r drained leftoverFiat requested, processUnlockInputInner demoCrypto .seek
        (demoStaged [⟨1, 0, 200000, ()⟩]) 9 ⟨demoSeeker, .fiat 4⟩ [⟨2, 1, 200000, ()⟩] (demoCycle 1000000) = .ok r ∧
      drained + amountSum ((r.1.staged .seek).getD (demoSeeker.id demoCrypto) []) = 200000 ∧
      r.1.registeredFiat (demoSeeker.id demoCrypto) = some leftoverFiat ∧
      FiatAmount.toBtcAmount leftoverFiat 1000000 = .ok requested ∧
      drained + requested ≤ 400000 ∧
      400000 ≤ drained + requested + (MSATS_PER_BTC + 1000000 - 1) / 1000000 ∧
      (drained + requested = 400000 ↔ MSATS_PER_BTC ∣ (400000 - drained) * 1000000) ∧
      (drained = 0 → (drained + requested = 400000 ↔ 1000000 ∣ 4 * MSATS_PER_BTC)) :=
  @unlock_accuracy demoCrypto .seek (demoStaged [⟨1, 0, 200000, ()⟩]) 9 4 400000 ⟨demoSeeker, .fiat 4⟩
    [⟨2, 1, 200000, ()⟩] (demoCycle 1000000) 7 (by decide) (by decide) rfl (by decide) rfl (by decide +kernel) rfl
    (by decide +kernel)

end StabilityPool
