import Fedi.FediFee.Accrual
import Fedi.StabilityPool.HistoryService

/-!
# The guardian's dashboard (`federation_v2/guardian_remittance.rs`)

Deposits to the guardian's btc-balance account carry metadata that whoever deposits encrypts: a total,
amounts by module, and a time.  A deposit is accepted when the metadata opens and its total is the
deposited amount; the amounts by module are summed on their own.  So the days and their totals are
right whatever the metadata says, and

    the dashboard adds up, in any order of the history   ↔
      on every day the amounts by module sum to the deposited amounts, which fit in `u64`
                                                                              (dashboard_iff)
-/

namespace FediFee

open BTreeMaps StabilityPool Runs

/-! ## Metadata -/

structure GuardianFeeBreakdownItemV1 where
  module : ModuleKind
  direction : RpcTransactionDirection
  amountMsats : ℕ

structure GuardianFeeRemittanceMetadataV1 where
  version : ℕ
  totalMsats : ℕ
  breakdown : List GuardianFeeBreakdownItemV1
  remittedAtUnix : ℕ

structure GuardianFeeRemittanceCiphertextV1 where
  version : ℕ
  ephemeralPubkey : PublicKey
  ciphertextHex : List Char

/-- The guardian's key, with code outside the repository: the envelope's JSON, and the key
agreement, decryption and JSON of its content. -/
structure GuardianKey where
  parseEnvelope : List UInt8 → Option GuardianFeeRemittanceCiphertextV1
  openMetadata : GuardianFeeRemittanceCiphertextV1 → Option GuardianFeeRemittanceMetadataV1

def decryptGuardianRemittanceMetadata (guardianKey : GuardianKey) (metadata : List UInt8) :
    Option GuardianFeeRemittanceMetadataV1 := do
  let envelope ← guardianKey.parseEnvelope metadata
  guard (envelope.version = 1)
  let metadata ← guardianKey.openMetadata envelope
  guard (metadata.version = 1)
  some metadata

/-! ## Days -/

structure Date where
  year : ℕ
  month : ℕ
  day : ℕ

def Date.Before (d d' : Date) : Prop :=
  d.year < d'.year ∨ d.year = d'.year ∧ (d.month < d'.month ∨ d.month = d'.month ∧ d.day < d'.day)

def secondsPerDay : ℕ := 86400

/-- `OffsetDateTime::from_unix_timestamp` and `date` of the `time` crate: the date of a second in UTC,
until the end of the year 9999. -/
structure Calendar where
  date : ℕ → Option Date
  sameDay : ∀ t t', t / secondsPerDay = t' / secondsPerDay → date t = date t'
  laterDay : ∀ t t' d d', t / secondsPerDay < t' / secondsPerDay → date t = some d → date t' = some d' → d.Before d'
  range : ∀ t d, date t = some d → t / secondsPerDay < 2932897
  fields : ∀ t d, date t = some d → d.year < 10000 ∧ d.month < 100 ∧ d.day < 100

abbrev DayKey := List Char

/-- The last `width` decimal digits. -/
def digits : ℕ → ℕ → List Char
  | 0, _ => []
  | width + 1, n => Nat.digitChar (n / 10 ^ width % 10) :: digits width n

/-- `{:0width}` -/
def padded (width n : ℕ) : List Char := if n < 10 ^ width then digits width n else Nat.toDigits 10 n

example : padded 4 42 = ['0', '0', '4', '2'] := by decide

/-- `{:04}-{:02}-{:02}` -/
def Date.key (date : Date) : DayKey := padded 4 date.year ++ '-' :: (padded 2 date.month ++ '-' :: padded 2 date.day)

def utcDayKey (calendar : Calendar) (unixSeconds : ℕ) : Option DayKey :=
  if unixSeconds < 2 ^ 63 then (calendar.date unixSeconds).map Date.key else none

/-! ## Entries -/

structure GuardianRemittanceEntry where
  remittedAtUnix : ℕ
  totalAmount : ℕ
  moduleTotals : BTreeMap ModuleKind ℕ

/-- `+=` on the amount of a module, part after part. -/
def addModules (overflowChecks : Bool) : BTreeMap ModuleKind ℕ → List (ModuleKind × ℕ) → Res (BTreeMap ModuleKind ℕ)
  | acc, [] => .ok acc
  | acc, part :: parts =>
    u64 overflowChecks (acc.getD part.1 0 + part.2) >>= fun amount =>
      addModules overflowChecks (acc.insert part.1 amount) parts

def partsOf (metadata : GuardianFeeRemittanceMetadataV1) : List (ModuleKind × ℕ) :=
  metadata.breakdown.map fun part => (part.module, part.amountMsats)

/-- The metadata of a deposit, if it opens and states the deposited amount. -/
def acceptedMetadata (guardianKey : GuardianKey) (item : UserOperationHistoryItem) :
    Option GuardianFeeRemittanceMetadataV1 :=
  match item.kind with
  | .btcBalanceDeposit metadata => do
    let metadata ← decryptGuardianRemittanceMetadata guardianKey metadata
    guard (metadata.totalMsats = item.amount)
    some metadata
  | _ => none

def entryOf (overflowChecks : Bool) (metadata : GuardianFeeRemittanceMetadataV1) : Res GuardianRemittanceEntry :=
  addModules overflowChecks .empty (partsOf metadata) >>= fun moduleTotals =>
    .ok ⟨metadata.remittedAtUnix, metadata.totalMsats, moduleTotals⟩

def rawEntriesFromHistory (overflowChecks : Bool) (guardianKey : GuardianKey)
    (history : List UserOperationHistoryItem) : Res (List GuardianRemittanceEntry) :=
  (history.filterMap (acceptedMetadata guardianKey)).mapM (entryOf overflowChecks)

/-! ## Buckets -/

structure RpcGuardianRemittanceModuleTotal where
  module : ModuleKind
  totalAmount : ℕ
deriving DecidableEq

structure RpcGuardianRemittanceDayBucket where
  dayKey : DayKey
  totalAmountRemitted : ℕ
  remittanceCount : ℕ
  moduleTotals : List RpcGuardianRemittanceModuleTotal
deriving DecidableEq

/-- As `u64`, of a counter. -/
def u32 (overflowChecks : Bool) (n : ℕ) : Res ℕ :=
  if n < 2 ^ 32 then .ok n else if overflowChecks then .error .overflow else .ok (n % 2 ^ 32)

def moduleTotalsOf (m : BTreeMap ModuleKind ℕ) : List RpcGuardianRemittanceModuleTotal :=
  m.entries.map fun e => ⟨e.1, e.2⟩

def collectModules (l : List RpcGuardianRemittanceModuleTotal) : BTreeMap ModuleKind ℕ :=
  l.foldl (fun acc item => acc.insert item.module item.totalAmount) .empty

/-- An entry in the bucket of its day. -/
def addEntry (overflowChecks : Bool) (bucket : RpcGuardianRemittanceDayBucket) (entry : GuardianRemittanceEntry) :
    Res RpcGuardianRemittanceDayBucket := do
  let total ← u64 overflowChecks (bucket.totalAmountRemitted + entry.totalAmount)
  let count ← u32 overflowChecks (bucket.remittanceCount + 1)
  let moduleTotals ← addModules overflowChecks (collectModules bucket.moduleTotals) entry.moduleTotals.entries
  .ok ⟨bucket.dayKey, total, count, moduleTotalsOf moduleTotals⟩

/-- The loop over the entries. -/
def bucketEntries (overflowChecks : Bool) (calendar : Calendar) :
    BTreeMap DayKey RpcGuardianRemittanceDayBucket → List GuardianRemittanceEntry →
      Res (BTreeMap DayKey RpcGuardianRemittanceDayBucket)
  | buckets, [] => .ok buckets
  | buckets, entry :: entries =>
    match utcDayKey calendar entry.remittedAtUnix with
    | none => bucketEntries overflowChecks calendar buckets entries
    | some dayKey =>
      addEntry overflowChecks (buckets.getD dayKey ⟨dayKey, 0, 0, []⟩) entry >>= fun bucket =>
        bucketEntries overflowChecks calendar (buckets.insert dayKey bucket) entries

def aggregateDayBuckets (overflowChecks : Bool) (calendar : Calendar) (entries : List GuardianRemittanceEntry) :
    Res (List RpcGuardianRemittanceDayBucket) :=
  bucketEntries overflowChecks calendar .empty entries >>= fun buckets => .ok buckets.values.reverse

def dashboardFromHistory (overflowChecks : Bool) (calendar : Calendar) (guardianKey : GuardianKey)
    (history : List UserOperationHistoryItem) : Res (List RpcGuardianRemittanceDayBucket) :=
  rawEntriesFromHistory overflowChecks guardianKey history >>= aggregateDayBuckets overflowChecks calendar

/-! ## What the dashboard should show -/

def accepted (guardianKey : GuardianKey) (history : List UserOperationHistoryItem) :
    List GuardianFeeRemittanceMetadataV1 :=
  history.filterMap (acceptedMetadata guardianKey)

/-- The accepted deposits of a UTC day. -/
def acceptedOn (guardianKey : GuardianKey) (history : List UserOperationHistoryItem) (day : ℕ) :
    List GuardianFeeRemittanceMetadataV1 :=
  (accepted guardianKey history).filter fun metadata => decide (metadata.remittedAtUnix / secondsPerDay = day)

/-- What the metadata says of a deposit, all modules together. -/
def GuardianFeeRemittanceMetadataV1.declared (metadata : GuardianFeeRemittanceMetadataV1) : ℕ :=
  (metadata.breakdown.map fun part => part.amountMsats).sum

/-- The buckets of a history. -/
structure DashboardAgrees (calendar : Calendar) (guardianKey : GuardianKey) (history : List UserOperationHistoryItem)
    (buckets : List RpcGuardianRemittanceDayBucket) : Prop where
  descending : buckets.Pairwise fun a b => ∀ t t', utcDayKey calendar t = some a.dayKey →
    utcDayKey calendar t' = some b.dayKey → t' / secondsPerDay < t / secondsPerDay
  days : ∀ dayKey, (∃ b ∈ buckets, b.dayKey = dayKey) ↔
    ∃ metadata ∈ accepted guardianKey history, utcDayKey calendar metadata.remittedAtUnix = some dayKey
  totals : ∀ b ∈ buckets, ∀ t, utcDayKey calendar t = some b.dayKey →
    b.totalAmountRemitted =
        ((acceptedOn guardianKey history (t / secondsPerDay)).map fun metadata => metadata.totalMsats).sum ∧
      b.remittanceCount = (acceptedOn guardianKey history (t / secondsPerDay)).length
  modules : ∀ b ∈ buckets, (b.moduleTotals.map fun item => item.totalAmount).sum = b.totalAmountRemitted

/-- The amounts of the history: what its metadata declares adds up day by day, and fits. -/
structure DeclaresDeposits (calendar : Calendar) (guardianKey : GuardianKey)
    (history : List UserOperationHistoryItem) : Prop where
  declared : ∀ t, utcDayKey calendar t ≠ none →
    ((acceptedOn guardianKey history (t / secondsPerDay)).map fun metadata => metadata.declared).sum =
      ((acceptedOn guardianKey history (t / secondsPerDay)).map fun metadata => metadata.totalMsats).sum
  amounts : ∀ t, utcDayKey calendar t ≠ none →
    ((acceptedOn guardianKey history (t / secondsPerDay)).map fun metadata => metadata.totalMsats).sum < 2 ^ 64
  counts : ∀ t, utcDayKey calendar t ≠ none → (acceptedOn guardianKey history (t / secondsPerDay)).length < 2 ^ 32
  /-- The amounts of a deposit whose time has no date are still summed by module. -/
  undated : ∀ metadata ∈ accepted guardianKey history, utcDayKey calendar metadata.remittedAtUnix = none →
    ∀ module, (((partsOf metadata).filter fun part => decide (part.1 = module)).map fun part => part.2).sum < 2 ^ 64

/-! ## The order of days -/

theorem digitChar_lt : ∀ a < 10, ∀ b < 10, a < b → Nat.digitChar a < Nat.digitChar b := by decide

@[simp] theorem length_digits (width n : ℕ) : (digits width n).length = width := by
  induction width with
  | zero => rfl
  | succ width ih => rw [digits, List.length_cons, ih]

theorem digits_mod (width n : ℕ) : digits width (n % 10 ^ width) = digits width n := by
  induction width generalizing n with
  | zero => rfl
  | succ width ih =>
    have hlead : n % 10 ^ (width + 1) / 10 ^ width % 10 = n / 10 ^ width % 10 := by
      rw [pow_succ, Nat.mod_mul_right_div_self, Nat.mod_mod]
    have hrest : n % 10 ^ (width + 1) % 10 ^ width = n % 10 ^ width :=
      Nat.mod_mod_of_dvd n (pow_dvd_pow 10 (Nat.le_succ width))
    rw [digits, digits, hlead, ← ih (n % 10 ^ (width + 1)), hrest, ih]

/-- Digits of one width are in the order of the numbers. -/
theorem digits_lt {width n m : ℕ} (h : n < m) (hm : m < 10 ^ width) : digits width n < digits width m := by
  induction width generalizing n m with
  | zero =>
    rw [pow_zero] at hm
    omega
  | succ width ih =>
    have hpos : 0 < 10 ^ width := Nat.pow_pos (by decide)
    have hlead : m / 10 ^ width < 10 := by
      rw [Nat.div_lt_iff_lt_mul hpos, Nat.mul_comm]
      exact pow_succ 10 width ▸ hm
    have hle : n / 10 ^ width ≤ m / 10 ^ width := Nat.div_le_div_right h.le
    rw [digits, digits, List.cons_lt_cons_iff, Nat.mod_eq_of_lt hlead, Nat.mod_eq_of_lt (by omega)]
    rcases hle.lt_or_eq with hlt | heq
    · exact .inl (digitChar_lt _ (by omega) _ hlead hlt)
    · -- the same leading digit: the rest decides
      right
      refine ⟨by rw [heq], ?_⟩
      rw [← digits_mod width n, ← digits_mod width m]
      refine ih ?_ (Nat.mod_lt m hpos)
      have hn := Nat.mod_add_div n (10 ^ width)
      have hm := Nat.mod_add_div m (10 ^ width)
      rw [heq] at hn
      omega

theorem padded_of_lt {width n : ℕ} (h : n < 10 ^ width) : padded width n = digits width n := if_pos h

theorem append_lt_append {a b c d : List Char} (hlength : a.length = b.length) (h : a < b) : a ++ c < b ++ d := by
  induction a generalizing b with
  | nil =>
    rw [List.eq_nil_of_length_eq_zero hlength.symm] at h
    exact absurd h (lt_irrefl _)
  | cons x a ih =>
    cases b with
    | nil => cases hlength
    | cons y b =>
      rw [List.cons_append, List.cons_append, List.cons_lt_cons_iff] at *
      rcases h with hlt | ⟨heq, hlt⟩
      · exact .inl hlt
      · exact .inr ⟨heq, ih (Nat.succ.inj hlength) hlt⟩

theorem append_lt_append_left (a : List Char) {c d : List Char} (h : c < d) : a ++ c < a ++ d := by
  induction a with
  | nil => exact h
  | cons x a ih =>
    rw [List.cons_append, List.cons_append, List.cons_lt_cons_iff]
    exact .inr ⟨rfl, ih⟩

/-- Keys are in the order of their dates. -/
theorem Date.key_lt {d d' : Date} (hd : d.year < 10000 ∧ d.month < 100 ∧ d.day < 100)
    (hd' : d'.year < 10000 ∧ d'.month < 100 ∧ d'.day < 100) (h : d.Before d') : d.key < d'.key := by
  unfold Date.key
  rw [@padded_of_lt 4 _ hd.1, @padded_of_lt 4 _ hd'.1, @padded_of_lt 2 _ hd.2.1, @padded_of_lt 2 _ hd'.2.1,
    @padded_of_lt 2 _ hd.2.2, @padded_of_lt 2 _ hd'.2.2]
  rcases h with hyear | ⟨hyear, hmonth | ⟨hmonth, hday⟩⟩
  · refine append_lt_append ?_ (digits_lt hyear hd'.1)
    rw [length_digits, length_digits]
  · rw [hyear]
    refine append_lt_append_left _ (List.cons_lt_cons_iff.mpr (.inr ⟨rfl, ?_⟩))
    refine append_lt_append ?_ (digits_lt hmonth hd'.2.1)
    rw [length_digits, length_digits]
  · rw [hyear, hmonth]
    refine append_lt_append_left _ (List.cons_lt_cons_iff.mpr (.inr ⟨rfl, append_lt_append_left _ ?_⟩))
    exact List.cons_lt_cons_iff.mpr (.inr ⟨rfl, digits_lt hday hd'.2.2⟩)

section
variable {calendar : Calendar} {t t' : ℕ} {dayKey dayKey' : DayKey}

theorem utcDayKey_lt (h : utcDayKey calendar t = some dayKey) (h' : utcDayKey calendar t' = some dayKey')
    (hlt : t / secondsPerDay < t' / secondsPerDay) : dayKey < dayKey' := by
  unfold utcDayKey at h h'
  split at h
  · split at h'
    · obtain ⟨d, hd, rfl⟩ := Option.map_eq_some_iff.mp h
      obtain ⟨d', hd', rfl⟩ := Option.map_eq_some_iff.mp h'
      exact Date.key_lt (calendar.fields t d hd) (calendar.fields t' d' hd') (calendar.laterDay t t' d d' hlt hd hd')
    · cases h'
  · cases h

theorem utcDayKey_sameDay (h : utcDayKey calendar t = some dayKey) (hday : t' / secondsPerDay = t / secondsPerDay) :
    utcDayKey calendar t' = some dayKey := by
  unfold utcDayKey at h ⊢
  split at h
  · obtain ⟨d, hd, rfl⟩ := Option.map_eq_some_iff.mp h
    have hrange := calendar.range t d hd
    have hsmall : t' < 2 ^ 63 := by
      unfold secondsPerDay at *
      omega
    rw [if_pos hsmall, calendar.sameDay t' t hday, hd]
    rfl
  · cases h

/-- Two times have one key when they are of one day. -/
theorem utcDayKey_iff (h : utcDayKey calendar t = some dayKey) :
    utcDayKey calendar t' = some dayKey ↔ t' / secondsPerDay = t / secondsPerDay := by
  constructor
  · intro h'
    rcases Nat.lt_trichotomy (t' / secondsPerDay) (t / secondsPerDay) with hlt | heq | hlt
    · exact absurd (utcDayKey_lt h' h hlt) (lt_irrefl _)
    · exact heq
    · exact absurd (utcDayKey_lt h h' hlt) (lt_irrefl _)
  · exact utcDayKey_sameDay h

/-- A later key is of a later day. -/
theorem day_lt_of_key_lt (h : utcDayKey calendar t = some dayKey) (h' : utcDayKey calendar t' = some dayKey')
    (hlt : dayKey < dayKey') : t / secondsPerDay < t' / secondsPerDay := by
  rcases Nat.lt_trichotomy (t / secondsPerDay) (t' / secondsPerDay) with hday | heq | hday
  · exact hday
  · rw [(utcDayKey_iff h').mpr heq] at h
    cases h
    exact absurd hlt (lt_irrefl _)
  · exact absurd (utcDayKey_lt h' h hday) (lt_asymm hlt)

end

/-! ## Amounts by module -/

def amountOf (module : ModuleKind) (parts : List (ModuleKind × ℕ)) : ℕ :=
  ((parts.filter fun part => decide (part.1 = module)).map fun part => part.2).sum

def amountOfAll (parts : List (ModuleKind × ℕ)) : ℕ := (parts.map fun part => part.2).sum

/-- The sums without a bound. -/
def exactModules (acc : BTreeMap ModuleKind ℕ) (parts : List (ModuleKind × ℕ)) : BTreeMap ModuleKind ℕ :=
  parts.foldl (fun acc part => acc.insert part.1 (acc.getD part.1 0 + part.2)) acc

def modulesTotal (m : BTreeMap ModuleKind ℕ) : ℕ := m.sumBy fun _ amount => amount

section
variable {acc m : BTreeMap ModuleKind ℕ} {parts : List (ModuleKind × ℕ)}

theorem amountOf_cons (module : ModuleKind) (part : ModuleKind × ℕ) (parts : List (ModuleKind × ℕ)) :
    amountOf module (part :: parts) = (if part.1 = module then part.2 else 0) + amountOf module parts := by
  unfold amountOf
  by_cases h : part.1 = module
  · rw [List.filter_cons_of_pos (by simpa using h), if_pos h, List.map_cons, List.sum_cons]
  · rw [List.filter_cons_of_neg (by simpa using h), if_neg h, Nat.zero_add]

theorem amountOf_le (module : ModuleKind) (parts : List (ModuleKind × ℕ)) : amountOf module parts ≤ amountOfAll parts := by
  induction parts with
  | nil => exact le_refl 0
  | cons part parts ih =>
    rw [amountOf_cons]
    unfold amountOfAll at ih ⊢
    rw [List.map_cons, List.sum_cons]
    split <;> omega

theorem getD_exactModules (module : ModuleKind) :
    (exactModules acc parts).getD module 0 = acc.getD module 0 + amountOf module parts := by
  induction parts generalizing acc with
  | nil => rfl
  | cons part parts ih =>
    show (exactModules (acc.insert part.1 (acc.getD part.1 0 + part.2)) parts).getD module 0 = _
    rw [ih, amountOf_cons, ← Nat.add_assoc]
    by_cases h : part.1 = module
    · subst h
      rw [BTreeMap.getD_insert_self, if_pos rfl]
    · rw [BTreeMap.getD_insert_ne _ _ _ (Ne.symm h), if_neg h, Nat.add_zero]

theorem modulesTotal_exactModules : modulesTotal (exactModules acc parts) = modulesTotal acc + amountOfAll parts := by
  induction parts generalizing acc with
  | nil => rfl
  | cons part parts ih =>
    have hinsert := BTreeMap.sumBy_insert_getD (f := fun _ (amount : ℕ) => amount) acc part.1
      (acc.getD part.1 0 + part.2) rfl
    show modulesTotal (exactModules (acc.insert part.1 (acc.getD part.1 0 + part.2)) parts) = _
    rw [ih]
    unfold modulesTotal amountOfAll
    rw [List.map_cons, List.sum_cons]
    omega

theorem amountOf_entries (m : BTreeMap ModuleKind ℕ) (module : ModuleKind) :
    amountOf module m.entries = m.getD module 0 := by
  have hexact := @getD_exactModules .empty m.entries module
  rw [BTreeMap.getD_empty, Nat.zero_add] at hexact
  have hsum : amountOf module m.entries = m.sumBy fun k amount => if k = module then amount else 0 := by
    unfold BTreeMap.sumBy sumEntries
    induction m.entries with
    | nil => rfl
    | cons e l ih => rw [amountOf_cons, ih, List.map_cons, List.sum_cons]
  rw [hsum, BTreeMap.sumBy_single m module (d := 0) (by simp) (by intro k v hk; simp [hk])]
  exact if_pos rfl

/-- With checks on, what is computed is exact. -/
theorem addModules_eq (h : addModules true acc parts = .ok m) : m = exactModules acc parts := by
  induction parts generalizing acc with
  | nil =>
    cases h
    rfl
  | cons part parts ih =>
    obtain ⟨amount, hamount, h⟩ := bind_eq_ok.mp h
    rw [u64_eq_ok (fun hno => absurd hno (by decide)) hamount] at h
    exact ih h

theorem addModules_of_lt (overflowChecks : Bool)
    (h : ∀ module, acc.getD module 0 + amountOf module parts < 2 ^ 64) :
    addModules overflowChecks acc parts = .ok (exactModules acc parts) := by
  induction parts generalizing acc with
  | nil => rfl
  | cons part parts ih =>
    have hpart := h part.1
    rw [amountOf_cons, if_pos rfl] at hpart
    rw [addModules, u64_of_lt (by omega), ok_bind, ih]
    · rfl
    · intro module
      have hmodule := h module
      rw [amountOf_cons] at hmodule
      by_cases heq : part.1 = module
      · subst heq
        rw [BTreeMap.getD_insert_self]
        rw [if_pos rfl] at hmodule
        omega
      · rw [BTreeMap.getD_insert_ne _ _ _ (Ne.symm heq)]
        rw [if_neg heq] at hmodule
        omega

/-- What is computed fits. -/
theorem addModules_lt (h : addModules true acc parts = .ok m) (hacc : ∀ module, acc.getD module 0 < 2 ^ 64)
    (module : ModuleKind) : m.getD module 0 < 2 ^ 64 := by
  induction parts generalizing acc with
  | nil =>
    cases h
    exact hacc module
  | cons part parts ih =>
    obtain ⟨amount, hamount, h⟩ := bind_eq_ok.mp h
    refine ih h fun module' => ?_
    by_cases heq : module' = part.1
    · subst heq
      rw [BTreeMap.getD_insert_self]
      exact u64_lt hamount
    · rw [BTreeMap.getD_insert_ne _ _ _ heq]
      exact hacc module'

theorem collectModules_of (m : BTreeMap ModuleKind ℕ) : collectModules (moduleTotalsOf m) = m := by
  unfold collectModules moduleTotalsOf
  rw [List.foldl_map]
  exact BTreeMap.empty_insertAll m

end

/-! ## Buckets -/

/-- The entries of a day. -/
def keyed (calendar : Calendar) (dayKey : DayKey) (entries : List GuardianRemittanceEntry) :
    List GuardianRemittanceEntry :=
  entries.filter fun entry => decide (utcDayKey calendar entry.remittedAtUnix = some dayKey)

def amountTotal (entries : List GuardianRemittanceEntry) : ℕ := (entries.map fun entry => entry.totalAmount).sum

def moduleAmount (module : ModuleKind) (entries : List GuardianRemittanceEntry) : ℕ :=
  (entries.map fun entry => entry.moduleTotals.getD module 0).sum

def modulesAmount (entries : List GuardianRemittanceEntry) : ℕ :=
  (entries.map fun entry => modulesTotal entry.moduleTotals).sum

/-- A bucket shows some entries. -/
structure BucketHolds (bucket : RpcGuardianRemittanceDayBucket) (entries : List GuardianRemittanceEntry) : Prop where
  total : bucket.totalAmountRemitted = amountTotal entries
  count : bucket.remittanceCount = entries.length
  modules : ∃ m, bucket.moduleTotals = moduleTotalsOf m ∧ (∀ module, m.getD module 0 = moduleAmount module entries) ∧
    modulesTotal m = modulesAmount entries

/-- What the entries of a day sum to fits. -/
structure EntriesFit (entries : List GuardianRemittanceEntry) : Prop where
  total : amountTotal entries < 2 ^ 64
  count : entries.length < 2 ^ 32
  modules : ∀ module, moduleAmount module entries < 2 ^ 64

theorem bucketHolds_nil (dayKey : DayKey) : BucketHolds ⟨dayKey, 0, 0, []⟩ [] :=
  ⟨rfl, rfl, .empty, rfl, fun _ => rfl, rfl⟩

theorem u32_eq_ok {n m : ℕ} (h : u32 true n = .ok m) : m = n := by
  unfold u32 at h
  split at h
  · cases h
    rfl
  · cases h

theorem u32_of_lt {overflowChecks : Bool} {n : ℕ} (h : n < 2 ^ 32) : u32 overflowChecks n = .ok n := if_pos h

section
variable {bucket bucket' : RpcGuardianRemittanceDayBucket} {entries : List GuardianRemittanceEntry}
  {entry : GuardianRemittanceEntry}

/-- An entry in a bucket, with the sums as they are. -/
theorem bucketHolds_snoc (hb : BucketHolds bucket entries) {m : BTreeMap ModuleKind ℕ}
    (hm : bucket.moduleTotals = moduleTotalsOf m) (dayKey : DayKey) :
    BucketHolds ⟨dayKey, bucket.totalAmountRemitted + entry.totalAmount, bucket.remittanceCount + 1,
      moduleTotalsOf (exactModules m entry.moduleTotals.entries)⟩ (entries ++ [entry]) := by
  obtain ⟨m', hm', hmodule, htotal⟩ := hb.modules
  have hsame : m = m' := by rw [← collectModules_of m, ← hm, hm', collectModules_of]
  subst hsame
  refine ⟨?_, ?_, _, rfl, fun module => ?_, ?_⟩
  · simp [amountTotal, hb.total]
  · simp [hb.count]
  · rw [getD_exactModules, amountOf_entries, hmodule]
    simp [moduleAmount]
  · rw [modulesTotal_exactModules, htotal]
    simp [modulesAmount, modulesTotal, amountOfAll, BTreeMap.sumBy, sumEntries]

theorem addEntry_spec (hb : BucketHolds bucket entries) (h : addEntry true bucket entry = .ok bucket') :
    BucketHolds bucket' (entries ++ [entry]) ∧ bucket'.dayKey = bucket.dayKey := by
  obtain ⟨total, htotal, h⟩ := bind_eq_ok.mp h
  obtain ⟨count, hcount, h⟩ := bind_eq_ok.mp h
  obtain ⟨moduleTotals, hmodules, h⟩ := bind_eq_ok.mp h
  cases h
  obtain ⟨m, hm, -, -⟩ := hb.modules
  rw [hm, collectModules_of] at hmodules
  rw [u64_eq_ok (fun hno => absurd hno (by decide)) htotal, u32_eq_ok hcount, addModules_eq hmodules]
  exact ⟨bucketHolds_snoc hb hm bucket.dayKey, rfl⟩

theorem addEntry_of_fits (overflowChecks : Bool) (hb : BucketHolds bucket entries)
    (hfits : EntriesFit (entries ++ [entry])) :
    ∃ bucket', addEntry overflowChecks bucket entry = .ok bucket' ∧ BucketHolds bucket' (entries ++ [entry]) ∧
      bucket'.dayKey = bucket.dayKey := by
  obtain ⟨m, hm, hmodule, -⟩ := hb.modules
  have htotal : bucket.totalAmountRemitted + entry.totalAmount < 2 ^ 64 := by
    have := hfits.total
    simpa [amountTotal, hb.total] using this
  have hcount : bucket.remittanceCount + 1 < 2 ^ 32 := by
    have := hfits.count
    rw [List.length_append, ← hb.count] at this
    exact this
  have hmodules : ∀ module, m.getD module 0 + amountOf module entry.moduleTotals.entries < 2 ^ 64 := by
    intro module
    rw [hmodule, amountOf_entries]
    have := hfits.modules module
    simpa [moduleAmount] using this
  have hok : addEntry overflowChecks bucket entry =
      .ok ⟨bucket.dayKey, bucket.totalAmountRemitted + entry.totalAmount, bucket.remittanceCount + 1,
        moduleTotalsOf (exactModules m entry.moduleTotals.entries)⟩ := by
    rw [addEntry, u64_of_lt htotal, ok_bind, u32_of_lt hcount, ok_bind, hm, collectModules_of,
      addModules_of_lt overflowChecks hmodules, ok_bind]
  exact ⟨_, hok, bucketHolds_snoc hb hm bucket.dayKey, rfl⟩

end

/-- The buckets of the entries so far. -/
structure BucketsHold (calendar : Calendar) (buckets : BTreeMap DayKey RpcGuardianRemittanceDayBucket)
    (entries : List GuardianRemittanceEntry) : Prop where
  holds : ∀ dayKey bucket, buckets.get? dayKey = some bucket →
    bucket.dayKey = dayKey ∧ BucketHolds bucket (keyed calendar dayKey entries) ∧ keyed calendar dayKey entries ≠ []
  missing : ∀ dayKey, buckets.get? dayKey = none → keyed calendar dayKey entries = []

section
variable {calendar : Calendar} {buckets buckets' : BTreeMap DayKey RpcGuardianRemittanceDayBucket}
  {entries done : List GuardianRemittanceEntry} {entry : GuardianRemittanceEntry} {dayKey : DayKey}

theorem keyed_append (dayKey : DayKey) (entries entries' : List GuardianRemittanceEntry) :
    keyed calendar dayKey (entries ++ entries') = keyed calendar dayKey entries ++ keyed calendar dayKey entries' :=
  List.filter_append ..

theorem keyed_singleton (h : utcDayKey calendar entry.remittedAtUnix = some dayKey) :
    keyed calendar dayKey [entry] = [entry] := by
  simp [keyed, h]

theorem keyed_singleton_ne (h : utcDayKey calendar entry.remittedAtUnix ≠ some dayKey) :
    keyed calendar dayKey [entry] = [] := by
  simp [keyed, h]

theorem bucketsHold_empty : BucketsHold calendar .empty [] where
  holds := fun _ _ h => (by cases h)
  missing := fun _ _ => rfl

/-- The bucket of a day, or a new one. -/
theorem BucketsHold.bucket (h : BucketsHold calendar buckets done) (dayKey : DayKey) :
    (buckets.getD dayKey ⟨dayKey, 0, 0, []⟩).dayKey = dayKey ∧
      BucketHolds (buckets.getD dayKey ⟨dayKey, 0, 0, []⟩) (keyed calendar dayKey done) := by
  cases hget : buckets.get? dayKey with
  | none =>
    rw [BTreeMap.getD_of_none hget, h.missing dayKey hget]
    exact ⟨rfl, bucketHolds_nil dayKey⟩
  | some bucket =>
    rw [BTreeMap.getD_of_get? hget]
    exact ⟨(h.holds dayKey bucket hget).1, (h.holds dayKey bucket hget).2.1⟩

/-- An entry without a date belongs to no bucket. -/
theorem BucketsHold.skip (h : BucketsHold calendar buckets done)
    (hnone : utcDayKey calendar entry.remittedAtUnix = none) : BucketsHold calendar buckets (done ++ [entry]) := by
  have hsame : ∀ dayKey, keyed calendar dayKey (done ++ [entry]) = keyed calendar dayKey done := by
    intro dayKey
    rw [keyed_append, keyed_singleton_ne (by rw [hnone]; simp), List.append_nil]
  refine ⟨fun dayKey bucket hget => ?_, fun dayKey hget => ?_⟩
  · rw [hsame]
    exact h.holds dayKey bucket hget
  · rw [hsame]
    exact h.missing dayKey hget

theorem BucketsHold.insert (h : BucketsHold calendar buckets done)
    (hkey : utcDayKey calendar entry.remittedAtUnix = some dayKey) {bucket : RpcGuardianRemittanceDayBucket}
    (hday : bucket.dayKey = dayKey) (hb : BucketHolds bucket (keyed calendar dayKey done ++ [entry])) :
    BucketsHold calendar (buckets.insert dayKey bucket) (done ++ [entry]) := by
  have hother : ∀ dayKey', dayKey' ≠ dayKey → keyed calendar dayKey' (done ++ [entry]) = keyed calendar dayKey' done := by
    intro dayKey' hne
    rw [keyed_append, keyed_singleton_ne, List.append_nil]
    rw [hkey, Ne, Option.some.injEq]
    exact Ne.symm hne
  refine ⟨fun dayKey' bucket' hget => ?_, fun dayKey' hget => ?_⟩
  · by_cases heq : dayKey' = dayKey
    · subst heq
      rw [BTreeMap.get?_insert_self] at hget
      cases hget
      rw [keyed_append, keyed_singleton hkey]
      exact ⟨hday, hb, by simp⟩
    · rw [BTreeMap.get?_insert_ne _ _ heq] at hget
      rw [hother dayKey' heq]
      exact h.holds dayKey' bucket' hget
  · by_cases heq : dayKey' = dayKey
    · subst heq
      rw [BTreeMap.get?_insert_self] at hget
      cases hget
    · rw [BTreeMap.get?_insert_ne _ _ heq] at hget
      rw [hother dayKey' heq]
      exact h.missing dayKey' hget

/-- The loop with checks on: what it returns is exact. -/
theorem bucketEntries_spec (hb : BucketsHold calendar buckets done)
    (h : bucketEntries true calendar buckets entries = .ok buckets') :
    BucketsHold calendar buckets' (done ++ entries) := by
  induction entries generalizing buckets done with
  | nil =>
    cases h
    rw [List.append_nil]
    exact hb
  | cons entry entries ih =>
    rw [List.append_cons]
    unfold bucketEntries at h
    split at h
    next hnone => exact ih (hb.skip hnone) h
    next dayKey hkey =>
      obtain ⟨bucket, hadd, h⟩ := bind_eq_ok.mp h
      obtain ⟨hday, hold⟩ := hb.bucket dayKey
      obtain ⟨hnew, hday'⟩ := addEntry_spec hold hadd
      exact ih (hb.insert hkey (hday'.trans hday) hnew) h

theorem u32_lt {n m : ℕ} (h : u32 true n = .ok m) : m < 2 ^ 32 := by
  unfold u32 at h
  split at h
  next hlt =>
    cases h
    exact hlt
  · cases h

/-- What the loop returns fits. -/
theorem bucketEntries_lt (hb : ∀ dayKey bucket, buckets.get? dayKey = some bucket →
      bucket.totalAmountRemitted < 2 ^ 64 ∧ bucket.remittanceCount < 2 ^ 32)
    (h : bucketEntries true calendar buckets entries = .ok buckets') {bucket : RpcGuardianRemittanceDayBucket}
    (hget : buckets'.get? dayKey = some bucket) :
    bucket.totalAmountRemitted < 2 ^ 64 ∧ bucket.remittanceCount < 2 ^ 32 := by
  induction entries generalizing buckets with
  | nil =>
    cases h
    exact hb dayKey bucket hget
  | cons entry entries ih =>
    unfold bucketEntries at h
    split at h
    next => exact ih hb h
    next dayKey' _ =>
      obtain ⟨bucket', hadd, h⟩ := bind_eq_ok.mp h
      obtain ⟨total, htotal, hadd⟩ := bind_eq_ok.mp hadd
      obtain ⟨count, hcount, hadd⟩ := bind_eq_ok.mp hadd
      obtain ⟨moduleTotals, -, hadd⟩ := bind_eq_ok.mp hadd
      cases hadd
      refine ih (fun k b hk => ?_) h
      by_cases heq : k = dayKey'
      · subst heq
        rw [BTreeMap.get?_insert_self] at hk
        cases hk
        exact ⟨u64_lt htotal, u32_lt hcount⟩
      · rw [BTreeMap.get?_insert_ne _ _ heq] at hk
        exact hb k b hk

/-- Sums of a part fit when those of the whole do. -/
theorem EntriesFit.left {entries entries' : List GuardianRemittanceEntry} (h : EntriesFit (entries ++ entries')) :
    EntriesFit entries := by
  have htotal := h.total
  have hcount := h.count
  refine ⟨?_, ?_, fun module => ?_⟩
  · simp only [amountTotal, List.map_append, List.sum_append] at htotal ⊢
    omega
  · rw [List.length_append] at hcount
    omega
  · have hmodule := h.modules module
    simp only [moduleAmount, List.map_append, List.sum_append] at hmodule ⊢
    omega

theorem bucketEntries_of_fits (overflowChecks : Bool) (hb : BucketsHold calendar buckets done)
    (hfits : ∀ dayKey, EntriesFit (keyed calendar dayKey (done ++ entries))) :
    ∃ buckets', bucketEntries overflowChecks calendar buckets entries = .ok buckets' ∧
      BucketsHold calendar buckets' (done ++ entries) := by
  induction entries generalizing buckets done with
  | nil =>
    rw [List.append_nil]
    exact ⟨buckets, rfl, hb⟩
  | cons entry entries ih =>
    rw [List.append_cons] at hfits ⊢
    unfold bucketEntries
    split
    next hnone => exact ih (hb.skip hnone) hfits
    next dayKey hkey =>
      obtain ⟨hday, hold⟩ := hb.bucket dayKey
      have hsofar : EntriesFit (keyed calendar dayKey done ++ [entry]) := by
        have hall := hfits dayKey
        rw [keyed_append, keyed_append, keyed_singleton hkey] at hall
        exact hall.left
      obtain ⟨bucket, hadd, hnew, hday'⟩ := addEntry_of_fits overflowChecks hold hsofar
      obtain ⟨buckets', hrest, hholds⟩ := ih (hb.insert hkey (hday'.trans hday) hnew) hfits
      rw [hadd, ok_bind]
      exact ⟨buckets', hrest, hholds⟩

end

/-! ## The dashboard -/

/-- An entry with its sums as they are. -/
def exactEntry (metadata : GuardianFeeRemittanceMetadataV1) : GuardianRemittanceEntry :=
  ⟨metadata.remittedAtUnix, metadata.totalMsats, exactModules .empty (partsOf metadata)⟩

section
variable {calendar : Calendar} {guardianKey : GuardianKey} {history history' : List UserOperationHistoryItem}

theorem entryOf_eq {metadata : GuardianFeeRemittanceMetadataV1} {entry : GuardianRemittanceEntry}
    (h : entryOf true metadata = .ok entry) : entry = exactEntry metadata := by
  obtain ⟨moduleTotals, hmodules, h⟩ := bind_eq_ok.mp h
  cases h
  rw [addModules_eq hmodules]
  rfl

theorem entryOf_of_lt (overflowChecks : Bool) {metadata : GuardianFeeRemittanceMetadataV1}
    (h : ∀ module, amountOf module (partsOf metadata) < 2 ^ 64) :
    entryOf overflowChecks metadata = .ok (exactEntry metadata) := by
  rw [entryOf, addModules_of_lt overflowChecks]
  · rfl
  · intro module
    rw [BTreeMap.getD_empty, Nat.zero_add]
    exact h module

/-- A deposit whose entry is made has amounts that fit, module by module. -/
theorem amountOf_lt_of_entryOf {metadata : GuardianFeeRemittanceMetadataV1} {entry : GuardianRemittanceEntry}
    (h : entryOf true metadata = .ok entry) (module : ModuleKind) : amountOf module (partsOf metadata) < 2 ^ 64 := by
  obtain ⟨moduleTotals, hmodules, -⟩ := bind_eq_ok.mp h
  have hempty : ∀ module, (BTreeMap.empty : BTreeMap ModuleKind ℕ).getD module 0 < 2 ^ 64 := fun _ =>
    Nat.two_pow_pos 64
  have hlt := addModules_lt hmodules hempty module
  rw [addModules_eq hmodules, getD_exactModules, BTreeMap.getD_empty, Nat.zero_add] at hlt
  exact hlt

theorem rawEntries_spec {entries : List GuardianRemittanceEntry}
    (h : rawEntriesFromHistory true guardianKey history = .ok entries) :
    entries = (accepted guardianKey history).map exactEntry ∧
      ∀ metadata ∈ accepted guardianKey history, ∀ module, amountOf module (partsOf metadata) < 2 ^ 64 := by
  have hmade : ∀ metadata ∈ accepted guardianKey history, ∃ entry, entryOf true metadata = .ok entry :=
    exists_mapM_ok.mp ⟨entries, h⟩
  have hexact : ∀ metadata ∈ accepted guardianKey history, entryOf true metadata = .ok (exactEntry metadata) := by
    intro metadata hmem
    obtain ⟨entry, hentry⟩ := hmade metadata hmem
    rw [hentry, entryOf_eq hentry]
  refine ⟨?_, fun metadata hmem => ?_⟩
  · have hok : rawEntriesFromHistory true guardianKey history = .ok ((accepted guardianKey history).map exactEntry) :=
      mapM_ok_of hexact
    exact Except.ok.inj (h.symm.trans hok)
  · obtain ⟨entry, hentry⟩ := hmade metadata hmem
    exact amountOf_lt_of_entryOf hentry

/-- The accepted deposits of a key are those of its day. -/
theorem keyed_exactEntry {t : ℕ} {dayKey : DayKey} (h : utcDayKey calendar t = some dayKey) :
    keyed calendar dayKey ((accepted guardianKey history).map exactEntry) =
      (acceptedOn guardianKey history (t / secondsPerDay)).map exactEntry := by
  unfold keyed acceptedOn
  rw [List.filter_map]
  congr 1
  refine List.filter_congr fun metadata _ => ?_
  show decide (utcDayKey calendar metadata.remittedAtUnix = some dayKey) = _
  rw [decide_eq_decide]
  exact utcDayKey_iff h

theorem amountTotal_exactEntry (l : List GuardianFeeRemittanceMetadataV1) :
    amountTotal (l.map exactEntry) = (l.map fun metadata => metadata.totalMsats).sum := by
  unfold amountTotal
  rw [List.map_map]
  rfl

theorem modulesTotal_exactEntry (metadata : GuardianFeeRemittanceMetadataV1) :
    modulesTotal (exactEntry metadata).moduleTotals = metadata.declared := by
  have htotal := @modulesTotal_exactModules .empty (partsOf metadata)
  show modulesTotal (exactModules .empty (partsOf metadata)) = _
  rw [htotal, amountOfAll, partsOf, List.map_map]
  exact Nat.zero_add _

theorem modulesAmount_exactEntry (l : List GuardianFeeRemittanceMetadataV1) :
    modulesAmount (l.map exactEntry) = (l.map fun metadata => metadata.declared).sum := by
  unfold modulesAmount
  rw [List.map_map]
  exact congrArg List.sum (List.map_congr_left fun metadata _ => modulesTotal_exactEntry metadata)

theorem moduleAmount_le (module : ModuleKind) (entries : List GuardianRemittanceEntry) :
    moduleAmount module entries ≤ modulesAmount entries := by
  unfold moduleAmount modulesAmount
  refine List.sum_le_sum fun entry _ => ?_
  rw [← amountOf_entries]
  exact amountOf_le module _

/-- The amounts of a bucket's modules are the sum of its entries'. -/
theorem BucketHolds.modules_sum {bucket : RpcGuardianRemittanceDayBucket} {entries : List GuardianRemittanceEntry}
    (h : BucketHolds bucket entries) :
    (bucket.moduleTotals.map fun item => item.totalAmount).sum = modulesAmount entries := by
  obtain ⟨m, hm, -, htotal⟩ := h.modules
  rw [hm, ← htotal, moduleTotalsOf, List.map_map]
  rfl

/-- The buckets in order, and what they hold. -/
theorem values_agree {buckets : BTreeMap DayKey RpcGuardianRemittanceDayBucket}
    (h : BucketsHold calendar buckets ((accepted guardianKey history).map exactEntry))
    (hdeclared : ∀ t, utcDayKey calendar t ≠ none →
      ((acceptedOn guardianKey history (t / secondsPerDay)).map fun metadata => metadata.declared).sum =
        ((acceptedOn guardianKey history (t / secondsPerDay)).map fun metadata => metadata.totalMsats).sum) :
    DashboardAgrees calendar guardianKey history buckets.values.reverse := by
  have hbucket : ∀ b ∈ buckets.values.reverse, buckets.get? b.dayKey = some b := by
    intro b hb
    obtain ⟨dayKey, hget⟩ := BTreeMap.mem_values.mp (List.mem_reverse.mp hb)
    rw [(h.holds dayKey b hget).1]
    exact hget
  have hnonempty : ∀ b ∈ buckets.values.reverse, ∃ metadata ∈ accepted guardianKey history,
      utcDayKey calendar metadata.remittedAtUnix = some b.dayKey := by
    intro b hb
    obtain ⟨-, -, hne⟩ := h.holds _ b (hbucket b hb)
    obtain ⟨entry, hentry⟩ := List.exists_mem_of_ne_nil _ hne
    obtain ⟨hmem, hkey⟩ := List.mem_filter.mp hentry
    obtain ⟨metadata, hmetadata, rfl⟩ := List.mem_map.mp hmem
    exact ⟨metadata, hmetadata, of_decide_eq_true hkey⟩
  refine ⟨?_, fun dayKey => ⟨?_, ?_⟩, fun b hb t ht => ?_, fun b hb => ?_⟩
  · rw [List.pairwise_reverse, BTreeMap.values, List.pairwise_map]
    refine buckets.sorted.imp_of_mem ?_
    intro e e' he he' hlt t t' ht ht'
    rw [(h.holds e.1 e.2 (BTreeMap.mem_entries.mp he)).1] at ht'
    rw [(h.holds e'.1 e'.2 (BTreeMap.mem_entries.mp he')).1] at ht
    exact day_lt_of_key_lt ht' ht hlt
  · rintro ⟨b, hb, rfl⟩
    exact hnonempty b hb
  · rintro ⟨metadata, hmetadata, hkey⟩
    have hne : keyed calendar dayKey ((accepted guardianKey history).map exactEntry) ≠ [] :=
      List.ne_nil_of_mem (List.mem_filter.mpr ⟨List.mem_map_of_mem hmetadata, decide_eq_true hkey⟩)
    cases hget : buckets.get? dayKey with
    | none => exact absurd (h.missing dayKey hget) hne
    | some b =>
      exact ⟨b, List.mem_reverse.mpr (BTreeMap.mem_values.mpr ⟨dayKey, hget⟩), (h.holds dayKey b hget).1⟩
  · obtain ⟨-, hholds, -⟩ := h.holds _ b (hbucket b hb)
    rw [keyed_exactEntry ht] at hholds
    refine ⟨?_, ?_⟩
    · rw [hholds.total, amountTotal_exactEntry]
    · rw [hholds.count, List.length_map]
  · obtain ⟨-, hholds, -⟩ := h.holds _ b (hbucket b hb)
    obtain ⟨metadata, -, hkey⟩ := hnonempty b hb
    rw [keyed_exactEntry hkey] at hholds
    rw [hholds.modules_sum, hholds.total, modulesAmount_exactEntry, amountTotal_exactEntry]
    exact hdeclared _ (by rw [hkey]; simp)

theorem acceptedOn_perm (h : history'.Perm history) (day : ℕ) :
    (acceptedOn guardianKey history' day).Perm (acceptedOn guardianKey history day) :=
  (h.filterMap _).filter _

theorem dashboardAgrees_perm (h : history'.Perm history) {buckets : List RpcGuardianRemittanceDayBucket}
    (hagrees : DashboardAgrees calendar guardianKey history' buckets) :
    DashboardAgrees calendar guardianKey history buckets := by
  refine ⟨hagrees.descending, fun dayKey => ?_, fun b hb t ht => ?_, hagrees.modules⟩
  · rw [hagrees.days dayKey]
    have hmem : ∀ metadata, metadata ∈ accepted guardianKey history' ↔ metadata ∈ accepted guardianKey history :=
      fun metadata => (h.filterMap _).mem_iff
    simp only [hmem]
  · have hperm := @acceptedOn_perm guardianKey history history' h (t / secondsPerDay)
    rw [← (hperm.map _).sum_eq, ← hperm.length_eq]
    exact hagrees.totals b hb t ht

theorem declaresDeposits_perm (h : history'.Perm history) (hd : DeclaresDeposits calendar guardianKey history) :
    DeclaresDeposits calendar guardianKey history' := by
  refine ⟨fun t ht => ?_, fun t ht => ?_, fun t ht => ?_, fun metadata hmem => ?_⟩
  · have hperm := @acceptedOn_perm guardianKey history history' h (t / secondsPerDay)
    rw [(hperm.map _).sum_eq, (hperm.map _).sum_eq]
    exact hd.declared t ht
  · have hperm := @acceptedOn_perm guardianKey history history' h (t / secondsPerDay)
    rw [(hperm.map _).sum_eq]
    exact hd.amounts t ht
  · have hperm := @acceptedOn_perm guardianKey history history' h (t / secondsPerDay)
    rw [hperm.length_eq]
    exact hd.counts t ht
  · exact hd.undated metadata ((h.filterMap _).mem_iff.mp hmem)

/-- A history whose metadata adds up is shown, with checks on or off. -/
theorem dashboard_of_declares (overflowChecks : Bool) (hd : DeclaresDeposits calendar guardianKey history) :
    ∃ buckets, dashboardFromHistory overflowChecks calendar guardianKey history = .ok buckets ∧
      DashboardAgrees calendar guardianKey history buckets := by
  have hfits : ∀ dayKey, EntriesFit (keyed calendar dayKey ([] ++ (accepted guardianKey history).map exactEntry)) := by
    intro dayKey
    rw [List.nil_append]
    by_cases hnone : keyed calendar dayKey ((accepted guardianKey history).map exactEntry) = []
    · rw [hnone]
      exact ⟨by decide, by decide, fun _ => by show 0 < 2 ^ 64; decide⟩
    obtain ⟨entry, hentry⟩ := List.exists_mem_of_ne_nil _ hnone
    obtain ⟨-, hkey⟩ := List.mem_filter.mp hentry
    have hkey := of_decide_eq_true hkey
    have hdated : utcDayKey calendar entry.remittedAtUnix ≠ none := by
      rw [hkey]
      simp
    rw [keyed_exactEntry hkey]
    refine ⟨?_, ?_, fun module => ?_⟩
    · rw [amountTotal_exactEntry]
      exact hd.amounts _ hdated
    · rw [List.length_map]
      exact hd.counts _ hdated
    · refine (moduleAmount_le module _).trans_lt ?_
      rw [modulesAmount_exactEntry, hd.declared _ hdated]
      exact hd.amounts _ hdated
  have hparts : ∀ metadata ∈ accepted guardianKey history, ∀ module, amountOf module (partsOf metadata) < 2 ^ 64 := by
    intro metadata hmem module
    cases hkey : utcDayKey calendar metadata.remittedAtUnix with
    | none => exact hd.undated metadata hmem hkey module
    | some dayKey =>
      -- the amount of the module in one entry is part of that of its day
      have hday := (hfits dayKey).modules module
      have hentry : exactEntry metadata ∈ keyed calendar dayKey ([] ++ (accepted guardianKey history).map exactEntry) :=
        List.mem_filter.mpr ⟨List.mem_map_of_mem hmem, decide_eq_true hkey⟩
      have hle : (exactEntry metadata).moduleTotals.getD module 0 ≤ moduleAmount module
          (keyed calendar dayKey ([] ++ (accepted guardianKey history).map exactEntry)) :=
        List.le_sum_of_mem (List.mem_map_of_mem hentry)
      have hexact : (exactEntry metadata).moduleTotals.getD module 0 = amountOf module (partsOf metadata) := by
        show (exactModules .empty (partsOf metadata)).getD module 0 = _
        rw [getD_exactModules, BTreeMap.getD_empty, Nat.zero_add]
      omega
  have hraw : rawEntriesFromHistory overflowChecks guardianKey history =
      .ok ((accepted guardianKey history).map exactEntry) :=
    mapM_ok_of fun metadata hmem => entryOf_of_lt overflowChecks (hparts metadata hmem)
  obtain ⟨buckets, hbuckets, hholds⟩ := bucketEntries_of_fits overflowChecks bucketsHold_empty hfits
  rw [List.nil_append] at hholds
  refine ⟨buckets.values.reverse, ?_, values_agree hholds hd.declared⟩
  rw [dashboardFromHistory, hraw, ok_bind, aggregateDayBuckets, hbuckets]
  rfl

/-- A history that is shown without an overflow declares what it shows. -/
theorem declares_of_dashboard {buckets : List RpcGuardianRemittanceDayBucket}
    (h : dashboardFromHistory true calendar guardianKey history = .ok buckets)
    (hagrees : DashboardAgrees calendar guardianKey history buckets) :
    DeclaresDeposits calendar guardianKey history := by
  obtain ⟨entries, hraw, h⟩ := bind_eq_ok.mp h
  obtain ⟨table, htable, h⟩ := bind_eq_ok.mp h
  cases h
  obtain ⟨rfl, hparts⟩ := rawEntries_spec hraw
  have hholds := bucketEntries_spec bucketsHold_empty htable
  rw [List.nil_append] at hholds
  have hday : ∀ t, utcDayKey calendar t ≠ none → acceptedOn guardianKey history (t / secondsPerDay) = [] ∨
      ∃ b ∈ table.values.reverse, utcDayKey calendar t = some b.dayKey ∧
        table.get? b.dayKey = some b := by
    intro t ht
    obtain ⟨dayKey, hkey⟩ := Option.ne_none_iff_exists'.mp ht
    cases hget : table.get? dayKey with
    | none =>
      left
      have hnone := hholds.missing dayKey hget
      rw [keyed_exactEntry hkey, List.map_eq_nil_iff] at hnone
      exact hnone
    | some b =>
      right
      have hb := (hholds.holds dayKey b hget).1
      refine ⟨b, List.mem_reverse.mpr (BTreeMap.mem_values.mpr ⟨dayKey, hget⟩), ?_, ?_⟩
      · rw [hkey, hb]
      · rw [hb, hget]
  refine ⟨fun t ht => ?_, fun t ht => ?_, fun t ht => ?_, fun metadata hmem _ module => hparts metadata hmem module⟩
  · rcases hday t ht with hnone | ⟨b, hb, hkey, hget⟩
    · rw [hnone]
      rfl
    · have hbucket := (hholds.holds b.dayKey b hget).2.1
      rw [keyed_exactEntry hkey] at hbucket
      rw [← modulesAmount_exactEntry, ← hbucket.modules_sum, hagrees.modules b hb]
      exact (hagrees.totals b hb t hkey).1
  · rcases hday t ht with hnone | ⟨b, hb, hkey, hget⟩
    · rw [hnone]
      exact Nat.two_pow_pos 64
    · rw [← (hagrees.totals b hb t hkey).1]
      exact (bucketEntries_lt (fun _ _ hk => by cases hk) htable hget).1
  · rcases hday t ht with hnone | ⟨b, hb, hkey, hget⟩
    · rw [hnone]
      exact Nat.two_pow_pos 32
    · rw [← (hagrees.totals b hb t hkey).2]
      exact (bucketEntries_lt (fun _ _ hk => by cases hk) htable hget).2

/-- In every order of a history, with checks of overflow on or off, the dashboard shows the accepted
deposits by day, exactly when their metadata declares on every day what was deposited on it. -/
theorem dashboard_iff (calendar : Calendar) (guardianKey : GuardianKey) (history : List UserOperationHistoryItem) :
    (∀ history', history'.Perm history → ∀ overflowChecks, ∃ buckets,
      dashboardFromHistory overflowChecks calendar guardianKey history' = .ok buckets ∧
        DashboardAgrees calendar guardianKey history buckets) ↔
      DeclaresDeposits calendar guardianKey history := by
  constructor
  · intro hshown
    obtain ⟨buckets, hbuckets, hagrees⟩ := hshown history (.refl history) true
    exact declares_of_dashboard hbuckets hagrees
  · intro hd history' hperm overflowChecks
    obtain ⟨buckets, hbuckets, hagrees⟩ := dashboard_of_declares overflowChecks (declaresDeposits_perm hperm hd)
    exact ⟨buckets, hbuckets, dashboardAgrees_perm hperm hagrees⟩

end

/-! ## A stranger's deposit -/

/-- Two days of November 2023; a key that reads a total and the amounts of two modules. -/
def demoCalendar : Calendar where
  date t := if t / secondsPerDay = 19675 then some ⟨2023, 11, 14⟩ else
    if t / secondsPerDay = 19676 then some ⟨2023, 11, 15⟩ else none
  sameDay := fun t t' h => by rw [h]
  laterDay := by
    intro t t' d d' hlt hd hd'
    unfold Date.Before
    split_ifs at hd hd' <;> cases hd <;> cases hd' <;> first | omega | decide
  range := by
    intro t d hd
    split_ifs at hd <;> omega
  fields := by
    intro t d hd
    split_ifs at hd <;> cases hd <;> decide

def keyReading (breakdown : List GuardianFeeBreakdownItemV1) : GuardianKey where
  parseEnvelope metadata := some ⟨1, 0, metadata.map fun byte => Char.ofNat byte.toNat⟩
  openMetadata := fun _ => some ⟨1, 1000, breakdown, 1700000000⟩

def demoDeposit : UserOperationHistoryItem where
  txid := 1
  cycle := ⟨0, 0, 0⟩
  amount := 1000
  fiatAmount := 0
  kind := .btcBalanceDeposit []

/-- A deposit of 1000 msats of which the metadata says that each of two modules paid them all, and one
whose amounts of a module overflow. -/
theorem dashboard_overstates :
    (¬∀ history' : List UserOperationHistoryItem, history'.Perm [demoDeposit] → ∀ overflowChecks, ∃ buckets,
      dashboardFromHistory overflowChecks demoCalendar (keyReading [⟨7, .send, 1000⟩, ⟨8, .send, 1000⟩]) history' =
          .ok buckets ∧
        DashboardAgrees demoCalendar (keyReading [⟨7, .send, 1000⟩, ⟨8, .send, 1000⟩]) [demoDeposit] buckets) ∧
    dashboardFromHistory true demoCalendar (keyReading [⟨7, .send, 2 ^ 63⟩, ⟨7, .send, 2 ^ 63⟩]) [demoDeposit] =
      .error .overflow := by
  refine ⟨fun hshown => ?_, by decide +kernel⟩
  obtain ⟨buckets, hbuckets, hagrees⟩ := hshown [demoDeposit] (.refl _) true
  have hcomputed : dashboardFromHistory true demoCalendar (keyReading [⟨7, .send, 1000⟩, ⟨8, .send, 1000⟩])
      [demoDeposit] =
        .ok [⟨['2', '0', '2', '3', '-', '1', '1', '-', '1', '4'], 1000, 1, [⟨7, 1000⟩, ⟨8, 1000⟩]⟩] := by
    decide +kernel
  rw [hcomputed] at hbuckets
  cases hbuckets
  have hmodules := hagrees.modules _ List.mem_cons_self
  exact absurd hmodules (by decide)

end FediFee
