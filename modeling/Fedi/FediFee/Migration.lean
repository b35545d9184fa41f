import Fedi.FediFee.AppRemittance

/-!
# Migration of app fees to streams (`federation_v2/mod.rs`)

Before streams, each module and direction had its own row of outstanding, pending and accrued fees, of
the total reported last, and of the time it was.  A call of `initialize_app_fee_stream_state` reads
these tables, one after another, and writes the rows of the app stream in a transaction that a marker
lets commit once.  The total reported last is not among what it reads: the reports of the app
stream count from zero again, and

    migrated once, with what is not reported yet   ↔   it fits ∧ (no report yet ∨ nothing accrued)
                                                                              (migrates_once_iff)
-/

namespace FediFee

open BTreeMaps Runs

/-! ## Tables -/

/-- The rows by module and direction, and the statuses, from before streams. -/
structure LegacyFees where
  outstandingPerTxType : BTreeMap TxType ℕ
  pendingPerTxType : BTreeMap TxType ℕ
  totalAccruedPerTxType : BTreeMap TxType ℕ
  remittanceTimestampPerTxType : BTreeMap TxType ℕ
  lastRemittanceTotalAccruedPerTxType : BTreeMap TxType ℕ
  operationStatus : BTreeMap OperationId OperationFediFeeStatus

/-- The tables of before streams, the rows of the streams, what the app stream has reported, and the
marker of the migration. -/
structure MigrationDb where
  legacy : LegacyFees
  fees : FediFeeDb
  lastRemittedTotalAccrued : Option ℕ
  appFeeStreamStateInitialized : Bool

def rowTotal (rows : BTreeMap TxType ℕ) : ℕ := rows.sumBy fun _ amount => amount

/-- What a report before streams still had to tell. -/
def LegacyFees.unreported (legacy : LegacyFees) : ℕ :=
  rowTotal legacy.totalAccruedPerTxType - rowTotal legacy.lastRemittanceTotalAccruedPerTxType

/-- The accrued delta of the next report. -/
def MigrationDb.unreported (db : MigrationDb) : ℕ :=
  db.fees.app.totalAccrued - db.lastRemittedTotalAccrued.getD 0

/-! ## Migration -/

/-- `SystemTime::checked_add`, in seconds. -/
def checkedAddTime (delay time : ℕ) : Option ℕ := if time + delay < 2 ^ 63 then some (time + delay) else none

/-- The earliest due time of a row. -/
def migratedDueAt (remittanceDelay now : ℕ) (timestamps : List ℕ) : ℕ :=
  (timestamps.filterMap (checkedAddTime remittanceDelay)).min?.getD (now + remittanceDelay)

/-- The transaction of `initialize_app_fee_stream_state`, with the tables that were read before it.
It removes the statuses it copied under the prefix of the streams, where there are none, and
leaves the tables as they are. -/
def initializeAppFeeStreamState (overflowChecks : Bool) (remittanceDelay now : ℕ) (read : LegacyFees)
    (db : MigrationDb) : Res MigrationDb :=
  if db.appFeeStreamStateInitialized = true then .ok db
  else do
    let outstandingTotal ← sumAmounts overflowChecks 0 read.outstandingPerTxType.values
    let pendingTotal ← sumAmounts overflowChecks 0 read.pendingPerTxType.values
    let totalAccrued ← sumAmounts overflowChecks 0 read.totalAccruedPerTxType.values
    let nextDueAt := migratedDueAt remittanceDelay now read.remittanceTimestampPerTxType.values
    let app := db.fees.app
    .ok { db with
      fees := { db.fees with
        app := { app with
          outstanding := outstandingTotal
          pending := pendingTotal
          totalAccrued := totalAccrued
          nextRemittanceDueAt := some nextDueAt
          outstandingPerTxType := app.outstandingPerTxType.insertAll read.outstandingPerTxType
          pendingPerTxType := app.pendingPerTxType.insertAll read.pendingPerTxType
          operationStatus := app.operationStatus.insertAll read.operationStatus } }
      appFeeStreamStateInitialized := true }

/-! ## Runs -/

/-- The database, and what the calls under way have read of it. -/
structure MigrationState where
  db : MigrationDb
  calls : List LegacyFees

inductive MigrationEvent where
  /-- A call reads the tables. -/
  | call
  /-- A call under way runs its transaction, which commits unless the process stops before. -/
  | finish (call : ℕ) (now : ℕ) (commits : Bool)
  | stop
  /-- Later fee activity: the rows of the streams, and what the app stream has reported. -/
  | activity (fees : FediFeeDb) (lastRemittedTotalAccrued : Option ℕ)

def MigrationState.start (legacy : LegacyFees) : MigrationState := ⟨⟨legacy, .empty, none, false⟩, []⟩

def finishCall (overflowChecks : Bool) (remittanceDelay now : ℕ) (commits : Bool) (read : LegacyFees)
    (db : MigrationDb) : MigrationDb :=
  match initializeAppFeeStreamState overflowChecks remittanceDelay now read db with
  | .ok db' => if commits then db' else db
  | .error _ => db

/-- The services of fees start after the migration. -/
def migrationStep (overflowChecks : Bool) (remittanceDelay : ℕ) (s : MigrationState) : MigrationEvent → MigrationState
  | .call => { s with calls := s.calls ++ [s.db.legacy] }
  | .finish call now commits =>
    match s.calls[call]? with
    | none => s
    | some read => ⟨finishCall overflowChecks remittanceDelay now commits read s.db, s.calls.eraseIdx call⟩
  | .stop => { s with calls := [] }
  | .activity fees lastRemittedTotalAccrued =>
    if s.db.appFeeStreamStateInitialized = true then
      { s with db := { s.db with fees := fees, lastRemittedTotalAccrued := lastRemittedTotalAccrued } }
    else s

def MigrationEvent.isActivity : MigrationEvent → Bool
  | .activity _ _ => true
  | _ => false

/-- The stream holds what the tables held. -/
structure Migrated (legacy : LegacyFees) (db : MigrationDb) : Prop where
  outstanding : db.fees.app.outstanding = rowTotal legacy.outstandingPerTxType
  pending : db.fees.app.pending = rowTotal legacy.pendingPerTxType
  totalAccrued : db.fees.app.totalAccrued = rowTotal legacy.totalAccruedPerTxType
  outstandingRows : db.fees.app.outstandingPerTxType = legacy.outstandingPerTxType
  pendingRows : db.fees.app.pendingPerTxType = legacy.pendingPerTxType
  statuses : db.fees.app.operationStatus = legacy.operationStatus
  outstandingSum : db.fees.app.outstanding = rowTotal db.fees.app.outstandingPerTxType
  pendingSum : db.fees.app.pending = rowTotal db.fees.app.pendingPerTxType
  unreported : db.unreported = legacy.unreported

/-- What a step of a run does to the database: a transaction that commits leaves it migrated, and
without one, or with the marker set, nothing but later activity changes it. -/
structure MigrationMoment (legacy : LegacyFees) (s : MigrationState) (e : MigrationEvent) (s' : MigrationState) :
    Prop where
  produced : ∀ call now, e = .finish call now true → call < s.calls.length → s'.db.appFeeStreamStateInitialized = true
  migrated : s.db.appFeeStreamStateInitialized = false → s'.db.appFeeStreamStateInitialized = true →
    Migrated legacy s'.db
  unchanged : e.isActivity = false →
    s.db.appFeeStreamStateInitialized = true ∨ s'.db.appFeeStreamStateInitialized = false → s'.db = s.db

/-- Every moment of a run. -/
def MigratesOnce (overflowChecks : Bool) (remittanceDelay : ℕ) (legacy : LegacyFees) (es : List MigrationEvent) :
    Prop :=
  ∀ n e, es[n]? = some e →
    MigrationMoment legacy ((es.take n).foldl (migrationStep overflowChecks remittanceDelay) (.start legacy)) e
      ((es.take (n + 1)).foldl (migrationStep overflowChecks remittanceDelay) (.start legacy))

/-- Sums of money. -/
structure LegacyFees.FitsU64 (legacy : LegacyFees) : Prop where
  outstanding : rowTotal legacy.outstandingPerTxType < 2 ^ 64
  pending : rowTotal legacy.pendingPerTxType < 2 ^ 64
  totalAccrued : rowTotal legacy.totalAccruedPerTxType < 2 ^ 64

/-- There is no last report, or nothing to report. -/
def LegacyFees.ReportsAfresh (legacy : LegacyFees) : Prop :=
  rowTotal legacy.lastRemittanceTotalAccruedPerTxType = 0 ∨ rowTotal legacy.totalAccruedPerTxType = 0

/-! ## Sums -/

section
variable {overflowChecks : Bool} {remittanceDelay : ℕ} {legacy : LegacyFees}

theorem sum_values (rows : BTreeMap TxType ℕ) : rows.values.sum = rowTotal rows := rfl

theorem sumAmounts_of_lt {amounts : List ℕ} {sofar : ℕ} (h : sofar + amounts.sum < 2 ^ 64) :
    sumAmounts overflowChecks sofar amounts = .ok (sofar + amounts.sum) := by
  induction amounts generalizing sofar with
  | nil => rfl
  | cons amount amounts ih =>
    rw [List.sum_cons, ← Nat.add_assoc] at h ⊢
    rw [sumAmounts, u64_of_lt (by omega), ok_bind]
    exact ih h

/-- A sum is a `u64`, exact or not. -/
theorem sumAmounts_lt {amounts : List ℕ} {sofar sum : ℕ} (hsofar : sofar < 2 ^ 64)
    (h : sumAmounts overflowChecks sofar amounts = .ok sum) : sum < 2 ^ 64 := by
  induction amounts generalizing sofar with
  | nil =>
    cases h
    exact hsofar
  | cons amount amounts ih =>
    obtain ⟨next, hnext, h⟩ := bind_eq_ok.mp h
    exact ih (u64_lt hnext) h

theorem sumAmounts_values {rows : BTreeMap TxType ℕ} (h : rowTotal rows < 2 ^ 64) :
    sumAmounts overflowChecks 0 rows.values = .ok (rowTotal rows) := by
  rw [← sum_values] at h ⊢
  rw [sumAmounts_of_lt (by omega), Nat.zero_add]

/-! ## One transaction -/

/-- The rows of the app stream after a migration. -/
def migratedFees (remittanceDelay now : ℕ) (legacy : LegacyFees) : FediFeeDb :=
  { FediFeeDb.empty with
    app := {
      operationStatus := legacy.operationStatus
      outstanding := rowTotal legacy.outstandingPerTxType
      outstandingPerTxType := legacy.outstandingPerTxType
      pending := rowTotal legacy.pendingPerTxType
      pendingPerTxType := legacy.pendingPerTxType
      totalAccrued := rowTotal legacy.totalAccruedPerTxType
      nextRemittanceDueAt :=
        some (migratedDueAt remittanceDelay now legacy.remittanceTimestampPerTxType.values) } }

theorem initialize_ok (now : ℕ) (hfits : legacy.FitsU64) :
    initializeAppFeeStreamState overflowChecks remittanceDelay now legacy ⟨legacy, .empty, none, false⟩ =
      .ok ⟨legacy, migratedFees remittanceDelay now legacy, none, true⟩ := by
  unfold initializeAppFeeStreamState
  rw [if_neg Bool.false_ne_true, sumAmounts_values hfits.outstanding, ok_bind, sumAmounts_values hfits.pending,
    ok_bind, sumAmounts_values hfits.totalAccrued, ok_bind]
  simp only [FediFeeDb.empty, StreamLedger.empty, BTreeMap.empty_insertAll]
  rfl

theorem migrated_of_fits (now : ℕ) (hreports : legacy.ReportsAfresh) :
    Migrated legacy ⟨legacy, migratedFees remittanceDelay now legacy, none, true⟩ where
  outstanding := rfl
  pending := rfl
  totalAccrued := rfl
  outstandingRows := rfl
  pendingRows := rfl
  statuses := rfl
  outstandingSum := rfl
  pendingSum := rfl
  unreported := by
    show rowTotal legacy.totalAccruedPerTxType - 0 =
      rowTotal legacy.totalAccruedPerTxType - rowTotal legacy.lastRemittanceTotalAccruedPerTxType
    rcases hreports with hlast | haccrued <;> omega

/-- A migration that agrees with its tables fits, and had nothing reported before. -/
theorem fits_of_migrated {now : ℕ} {read : LegacyFees} {db : MigrationDb}
    (h : initializeAppFeeStreamState overflowChecks remittanceDelay now read ⟨legacy, .empty, none, false⟩ = .ok db)
    (hmigrated : Migrated legacy db) : legacy.FitsU64 ∧ legacy.ReportsAfresh := by
  unfold initializeAppFeeStreamState at h
  rw [if_neg Bool.false_ne_true] at h
  obtain ⟨outstanding, houtstanding, h⟩ := bind_eq_ok.mp h
  obtain ⟨pending, hpending, h⟩ := bind_eq_ok.mp h
  obtain ⟨totalAccrued, haccrued, h⟩ := bind_eq_ok.mp h
  cases h
  have hunreported := hmigrated.unreported
  have htotal := hmigrated.totalAccrued
  refine ⟨⟨hmigrated.outstanding ▸ sumAmounts_lt (by decide) houtstanding,
    hmigrated.pending ▸ sumAmounts_lt (by decide) hpending, htotal ▸ sumAmounts_lt (by decide) haccrued⟩, ?_⟩
  unfold MigrationDb.unreported LegacyFees.unreported at hunreported
  rw [htotal, Option.getD_none] at hunreported
  unfold LegacyFees.ReportsAfresh
  omega

/-! ## Every run -/

/-- Until the marker is set the tables are untouched, as is what the calls have read of them. -/
structure MigrationInv (legacy : LegacyFees) (s : MigrationState) : Prop where
  tables : s.db.legacy = legacy
  reads : ∀ read ∈ s.calls, read = legacy
  fresh : s.db.appFeeStreamStateInitialized = false → s.db = ⟨legacy, .empty, none, false⟩

theorem finishCall_legacy {now : ℕ} {commits : Bool} {read : LegacyFees} {db : MigrationDb} :
    (finishCall overflowChecks remittanceDelay now commits read db).legacy = db.legacy := by
  unfold finishCall
  split
  next db' h =>
    cases commits with
    | false => rfl
    | true =>
      unfold initializeAppFeeStreamState at h
      split at h
      · cases h
        rfl
      · obtain ⟨_, -, h⟩ := bind_eq_ok.mp h
        obtain ⟨_, -, h⟩ := bind_eq_ok.mp h
        obtain ⟨_, -, h⟩ := bind_eq_ok.mp h
        cases h
        rfl
  next => rfl

/-- The marker stops a call. -/
theorem finishCall_of_initialized {now : ℕ} {commits : Bool} {read : LegacyFees} {db : MigrationDb}
    (h : db.appFeeStreamStateInitialized = true) :
    finishCall overflowChecks remittanceDelay now commits read db = db := by
  unfold finishCall initializeAppFeeStreamState
  rw [if_pos h]
  cases commits <;> rfl

/-- A call that does not set the marker changes nothing. -/
theorem finishCall_of_not_initialized {now : ℕ} {commits : Bool} {read : LegacyFees} {db : MigrationDb}
    (h : (finishCall overflowChecks remittanceDelay now commits read db).appFeeStreamStateInitialized = false) :
    finishCall overflowChecks remittanceDelay now commits read db = db := by
  unfold finishCall at h ⊢
  split at h
  next db' heq =>
    cases commits with
    | false => rfl
    | true =>
      unfold initializeAppFeeStreamState at heq
      split at heq
      · cases heq
        rfl
      · obtain ⟨_, -, heq⟩ := bind_eq_ok.mp heq
        obtain ⟨_, -, heq⟩ := bind_eq_ok.mp heq
        obtain ⟨_, -, heq⟩ := bind_eq_ok.mp heq
        cases heq
        cases h
  next => rfl

theorem finishCall_fresh (now : ℕ) (hfits : legacy.FitsU64) (commits : Bool) :
    finishCall overflowChecks remittanceDelay now commits legacy ⟨legacy, .empty, none, false⟩ =
      if commits then ⟨legacy, migratedFees remittanceDelay now legacy, none, true⟩
      else ⟨legacy, .empty, none, false⟩ := by
  unfold finishCall
  rw [initialize_ok now hfits]

theorem migrationInv_step {s : MigrationState} (h : MigrationInv legacy s) (e : MigrationEvent) :
    MigrationInv legacy (migrationStep overflowChecks remittanceDelay s e) := by
  cases e with
  | call =>
    refine ⟨h.tables, fun read hread => ?_, h.fresh⟩
    rcases List.mem_append.mp hread with hread | hread
    · exact h.reads read hread
    · rw [List.mem_singleton.mp hread]
      exact h.tables
  | stop => exact ⟨h.tables, fun _ hread => absurd hread List.not_mem_nil, h.fresh⟩
  | finish call now commits =>
    show MigrationInv legacy (match s.calls[call]? with | none => s | some read => _)
    cases hread : s.calls[call]? with
    | none => exact h
    | some read =>
      refine ⟨finishCall_legacy.trans h.tables, fun read' hread' => h.reads read' (List.mem_of_mem_eraseIdx hread'), ?_⟩
      intro hfresh
      dsimp only at hfresh ⊢
      have hsame := finishCall_of_not_initialized hfresh
      rw [hsame] at hfresh ⊢
      exact h.fresh hfresh
  | activity fees lastRemittedTotalAccrued =>
    show MigrationInv legacy (if s.db.appFeeStreamStateInitialized = true then _ else s)
    by_cases hinit : s.db.appFeeStreamStateInitialized = true
    · rw [if_pos hinit]
      refine ⟨h.tables, h.reads, fun hfresh => ?_⟩
      exact absurd (hinit.symm.trans hfresh) (by decide)
    · rw [if_neg hinit]
      exact h

theorem migrationMoment_step {s : MigrationState} (h : MigrationInv legacy s) (hfits : legacy.FitsU64)
    (hreports : legacy.ReportsAfresh) (e : MigrationEvent) :
    MigrationMoment legacy s e (migrationStep overflowChecks remittanceDelay s e) := by
  cases e with
  | call =>
    refine ⟨fun _ _ he => ?_, fun hfresh hinit => ?_, fun _ _ => rfl⟩
    · cases he
    · exact absurd (hfresh.symm.trans hinit) (by decide)
  | stop =>
    refine ⟨fun _ _ he => ?_, fun hfresh hinit => ?_, fun _ _ => rfl⟩
    · cases he
    · exact absurd (hfresh.symm.trans hinit) (by decide)
  | activity fees lastRemittedTotalAccrued =>
    refine ⟨fun _ _ he => ?_, fun hfresh hinit => ?_, fun hactivity => ?_⟩
    · cases he
    · have hsame : migrationStep overflowChecks remittanceDelay s (.activity fees lastRemittedTotalAccrued) = s :=
        if_neg (by rw [hfresh]; exact Bool.false_ne_true)
      rw [hsame] at hinit
      exact absurd (hfresh.symm.trans hinit) (by decide)
    · cases hactivity
  | finish call now commits =>
    cases hread : s.calls[call]? with
    | none =>
      have hsame : migrationStep overflowChecks remittanceDelay s (.finish call now commits) = s := by
        simp only [migrationStep, hread]
      rw [hsame]
      refine ⟨fun call' now' he hlt => ?_, fun hfresh hinit => ?_, fun _ _ => rfl⟩
      · cases he
        exact absurd hlt (by simpa using hread)
      · exact absurd (hfresh.symm.trans hinit) (by decide)
    | some read =>
      have hstep : (migrationStep overflowChecks remittanceDelay s (.finish call now commits)).db =
          finishCall overflowChecks remittanceDelay now commits read s.db := by
        simp only [migrationStep, hread]
      obtain rfl := h.reads read (List.mem_of_getElem? hread)
      refine ⟨fun call' now' he _ => ?_, fun hfresh hinit => ?_, fun _ hkept => ?_⟩
      · cases he
        rw [hstep]
        cases hinit : s.db.appFeeStreamStateInitialized with
        | true => rw [finishCall_of_initialized hinit, hinit]
        | false =>
          rw [h.fresh hinit, finishCall_fresh now hfits]
          rfl
      · rw [hstep, h.fresh hfresh, finishCall_fresh now hfits] at hinit ⊢
        cases commits with
        | false => exact absurd hinit Bool.false_ne_true
        | true => exact migrated_of_fits now hreports
      · rw [hstep] at hkept ⊢
        rcases hkept with hinit | hfresh
        · exact finishCall_of_initialized hinit
        · exact finishCall_of_not_initialized hfresh

/-- The migration takes place once and loses nothing, in every run, exactly when the totals are
amounts and nothing that was accrued had been reported before. -/
theorem migrates_once_iff (overflowChecks : Bool) (remittanceDelay : ℕ) (legacy : LegacyFees) :
    (∀ es, MigratesOnce overflowChecks remittanceDelay legacy es) ↔ legacy.FitsU64 ∧ legacy.ReportsAfresh := by
  constructor
  · intro hruns
    have hmoment := hruns [.call, .finish 0 0 true] 1 (.finish 0 0 true) rfl
    have hinit := hmoment.produced 0 0 rfl Nat.one_pos
    have hmigrated := hmoment.migrated rfl hinit
    have hdb : (([.call, .finish 0 0 true] : List MigrationEvent).take 2).foldl
        (migrationStep overflowChecks remittanceDelay) (.start legacy) =
          ⟨finishCall overflowChecks remittanceDelay 0 true legacy ⟨legacy, .empty, none, false⟩, []⟩ := rfl
    rw [hdb] at hinit hmigrated
    unfold finishCall at hinit hmigrated
    cases hcall : initializeAppFeeStreamState overflowChecks remittanceDelay 0 legacy ⟨legacy, .empty, none, false⟩ with
    | error e =>
      rw [hcall] at hinit
      cases hinit
    | ok db =>
      rw [hcall] at hmigrated
      exact fits_of_migrated hcall hmigrated
  · rintro ⟨hfits, hreports⟩ es n e he
    have hinv : MigrationInv legacy ((es.take n).foldl (migrationStep overflowChecks remittanceDelay)
        (.start legacy)) :=
      moments_induction (P := MigrationInv legacy) (Q := fun _ _ => True)
        ⟨rfl, fun _ hread => absurd hread List.not_mem_nil, fun _ => rfl⟩ (fun _ e hs _ => migrationInv_step hs e)
        (fun _ _ _ => trivial) n
    rw [foldl_take_succ he]
    exact migrationMoment_step hinv hfits hreports e

/-- The client after a start: no remittance is under way. -/
def MigrationDb.appState (db : MigrationDb) : AppState where
  statuses := { StatusState.start with fees := db.fees }
  lastRemittedTotalAccrued := db.lastRemittedTotalAccrued.getD 0
  lastSpv2Balance := 0
  task := .idle
  paid := 0

theorem accruedFeeDelta_eq (db : MigrationDb) (a : Attempt) (x : Report) (amount : ℕ) :
    (invoiceRequest db.appState a x amount).accruedFeeDelta = db.unreported := rfl

/-- The first report after a migration tells everything that was ever accrued. -/
theorem first_report (now : ℕ) (a : Attempt) (x : Report) (amount : ℕ) :
    (invoiceRequest (MigrationDb.appState ⟨legacy, migratedFees remittanceDelay now legacy, none, true⟩) a x
      amount).accruedFeeDelta = rowTotal legacy.totalAccruedPerTxType := by
  rw [accruedFeeDelta_eq]
  exact Nat.sub_zero _

end

/-- Fees of 5000 msats have accrued, of which 3000 are reported. -/
def demoLegacy : LegacyFees where
  outstandingPerTxType := BTreeMap.empty.insert ⟨7, .send⟩ 2000
  pendingPerTxType := .empty
  totalAccruedPerTxType := BTreeMap.empty.insert ⟨7, .send⟩ 5000
  remittanceTimestampPerTxType := BTreeMap.empty.insert ⟨7, .send⟩ 100
  lastRemittanceTotalAccruedPerTxType := BTreeMap.empty.insert ⟨7, .send⟩ 3000
  operationStatus := BTreeMap.empty.insert 1 (.success 5000)

theorem demoLegacy_not_migrated (overflowChecks : Bool) : ¬∀ es, MigratesOnce overflowChecks 60 demoLegacy es := by
  intro hruns
  have hmoment := hruns [.call, .finish 0 0 true] 1 (.finish 0 0 true) rfl
  have hunreported := (hmoment.migrated rfl (hmoment.produced 0 0 rfl Nat.one_pos)).unreported
  revert hunreported
  cases overflowChecks <;> decide +kernel

/-- They are migrated, and all 5000 are to be reported. -/
theorem migration_reports_twice : (¬∀ es, MigratesOnce false 60 demoLegacy es) ∧
    (¬∀ es, MigratesOnce true 60 demoLegacy es) ∧ demoLegacy.unreported = 2000 ∧
      (finishCall true 60 0 true demoLegacy ⟨demoLegacy, .empty, none, false⟩).unreported = 5000 :=
  ⟨demoLegacy_not_migrated false, demoLegacy_not_migrated true, by decide, by decide +kernel⟩

end FediFee
