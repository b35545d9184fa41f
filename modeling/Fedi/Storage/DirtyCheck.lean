import Mathlib.Data.List.Basic

/-!
# What makes the state saved (`ui/common/utils/storage.ts`)

`transformStateToStorage` picks the persisted settings out of the Redux state; `hasStorageStateChanged` compares key
paths of two states with `===`, and the state is saved only if one differs.  The paths are a list of their own: it has
`currency.prices`, which no state has, and neither `currency.btcUsdRate` nor `currency.fiatUsdRates`.

    no change is seen iff all persisted settings but the two rates are identical      (hasStorageStateChanged_eq_false)
    so the check is sound iff the two rates are the same then                         (dirty_check_iff)
    new prices are never seen                                                         (fetch_not_seen)
-/

namespace Storage

/-! ## Values -/

/-- Values of JavaScript: `===` sees identity, `content` is what a value is equal to in depth. -/
structure Js (V : Type) where
  undefined : V
  strictEq : V → V → Bool
  Content : Type
  content : V → Content
  strictEq_undefined : strictEq undefined undefined = true
  content_of_strictEq : ∀ a b, strictEq a b = true → content a = content b

/-! ## The state -/

structure EnvironmentState (V : Type) where
  onchainDepositsEnabled : V
  developerMode : V
  stableBalanceEnabled : V
  language : V
  amountInputType : V
  transactionDisplayType : V
  deviceId : V
  sessionCount : V
  lastUsedTab : V
  paymentType : V
  latestAwareReleaseTag : V

structure CurrencyState (V : Type) where
  btcUsdRate : V
  fiatUsdRates : V
  overrideCurrency : V
  balanceDisplay : V
  currencyLocale : V
  customFederationCurrencies : V

structure FederationState (V : Type) where
  recentlyUsedFederationIds : V
  lastSelectedCommunityId : V
  authenticatedGuardian : V
  customFediMods : V
  seenFederationRatings : V
  previouslyAutojoinedCommunities : V
  autojoinNoticesToDisplay : V
  selectedFederationId : V

structure MatrixState (V : Type) where
  auth : V
  drafts : V
  rejectedRoomInvites : V
  seenRoomInvites : V
  seenKnockRequests : V

structure NuxState (V : Type) where
  steps : V

structure PersonalBackupReminderState (V : Type) where
  countdownStartedAt : V
  hasReachedThresholds : V

structure SecurityState (V : Type) where
  protectedFeatures : V

structure ModState (V : Type) where
  customGlobalMods : V
  modVisibility : V
  miniAppPermissions : V
  newMods : V
  miniAppOrder : V

structure SupportState (V : Type) where
  supportPermissionGranted : V
  zendeskPushNotificationToken : V

structure SurveyState (V : Type) where
  surveyCompletions : V
  lastShownSurveyTimestamp : V

structure AnalyticsState (V : Type) where
  hasConsentedToAnalytics : V
  hasSeenAnalyticsConsentModal : V
  analyticsId : V

structure CommonState (V : Type) where
  environment : EnvironmentState V
  currency : CurrencyState V
  federation : FederationState V
  matrix : MatrixState V
  nux : NuxState V
  personalBackupReminder : PersonalBackupReminderState V
  security : SecurityState V
  mod : ModState V
  support : SupportState V
  survey : SurveyState V
  analytics : AnalyticsState V

section

variable {V W : Type}

/-- The entries of the state, slice by slice. -/
def CommonState.slices (state : CommonState V) : List (String × List (String × V)) := [
  ("environment", [
    ("onchainDepositsEnabled", state.environment.onchainDepositsEnabled),
    ("developerMode", state.environment.developerMode),
    ("stableBalanceEnabled", state.environment.stableBalanceEnabled),
    ("language", state.environment.language),
    ("amountInputType", state.environment.amountInputType),
    ("transactionDisplayType", state.environment.transactionDisplayType),
    ("deviceId", state.environment.deviceId),
    ("sessionCount", state.environment.sessionCount),
    ("lastUsedTab", state.environment.lastUsedTab),
    ("paymentType", state.environment.paymentType),
    ("latestAwareReleaseTag", state.environment.latestAwareReleaseTag)]),
  ("currency", [
    ("btcUsdRate", state.currency.btcUsdRate),
    ("fiatUsdRates", state.currency.fiatUsdRates),
    ("overrideCurrency", state.currency.overrideCurrency),
    ("balanceDisplay", state.currency.balanceDisplay),
    ("currencyLocale", state.currency.currencyLocale),
    ("customFederationCurrencies", state.currency.customFederationCurrencies)]),
  ("federation", [
    ("recentlyUsedFederationIds", state.federation.recentlyUsedFederationIds),
    ("lastSelectedCommunityId", state.federation.lastSelectedCommunityId),
    ("authenticatedGuardian", state.federation.authenticatedGuardian),
    ("customFediMods", state.federation.customFediMods),
    ("seenFederationRatings", state.federation.seenFederationRatings),
    ("previouslyAutojoinedCommunities", state.federation.previouslyAutojoinedCommunities),
    ("autojoinNoticesToDisplay", state.federation.autojoinNoticesToDisplay),
    ("selectedFederationId", state.federation.selectedFederationId)]),
  ("matrix", [
    ("auth", state.matrix.auth),
    ("drafts", state.matrix.drafts),
    ("rejectedRoomInvites", state.matrix.rejectedRoomInvites),
    ("seenRoomInvites", state.matrix.seenRoomInvites),
    ("seenKnockRequests", state.matrix.seenKnockRequests)]),
  ("nux", [("steps", state.nux.steps)]),
  ("personalBackupReminder", [
    ("countdownStartedAt", state.personalBackupReminder.countdownStartedAt),
    ("hasReachedThresholds", state.personalBackupReminder.hasReachedThresholds)]),
  ("security", [("protectedFeatures", state.security.protectedFeatures)]),
  ("mod", [
    ("customGlobalMods", state.mod.customGlobalMods),
    ("modVisibility", state.mod.modVisibility),
    ("miniAppPermissions", state.mod.miniAppPermissions),
    ("newMods", state.mod.newMods),
    ("miniAppOrder", state.mod.miniAppOrder)]),
  ("support", [
    ("supportPermissionGranted", state.support.supportPermissionGranted),
    ("zendeskPushNotificationToken", state.support.zendeskPushNotificationToken)]),
  ("survey", [
    ("surveyCompletions", state.survey.surveyCompletions),
    ("lastShownSurveyTimestamp", state.survey.lastShownSurveyTimestamp)]),
  ("analytics", [
    ("hasConsentedToAnalytics", state.analytics.hasConsentedToAnalytics),
    ("hasSeenAnalyticsConsentModal", state.analytics.hasSeenAnalyticsConsentModal),
    ("analyticsId", state.analytics.analyticsId)])]

/-- `get` of a slice and a key. -/
def get (undefined : V) (state : CommonState V) (keys : String × String) : V :=
  (((state.slices.lookup keys.1).bind fun slice => slice.lookup keys.2)).getD undefined

/-! ## What is stored -/

structure PersonalBackupReminder (V : Type) where
  countdownStartedAt : V
  hasReachedThresholds : V

structure Support (V : Type) where
  supportPermissionGranted : V
  zendeskPushNotificationToken : V

structure LatestStoredState (V : Type) where
  version : ℕ
  onchainDepositsEnabled : V
  developerMode : V
  stableBalanceEnabled : V
  language : V
  amountInputType : V
  transactionDisplayType : V
  deviceId : V
  currency : V
  btcUsdRate : V
  fiatUsdRates : V
  customFederationCurrencies : V
  authenticatedGuardian : V
  customFediMods : V
  nuxSteps : V
  personalBackupReminder : PersonalBackupReminder V
  matrixAuth : V
  protectedFeatures : V
  customGlobalMods : V
  miniAppPermissions : V
  miniAppOrder : V
  modVisibility : V
  newMods : V
  chatDrafts : V
  support : Support V
  seenFederationRatings : V
  lastShownSurveyTimestamp : V
  surveyCompletions : V
  lastSelectedCommunityId : V
  recentlyUsedFederationIds : V
  previouslyAutojoinedCommunities : V
  autojoinNoticesToDisplay : V
  analyticsId : V
  hasConsentedToAnalytics : V
  sessionCount : V
  hasSeenAnalyticsConsentModal : V
  balanceDisplay : V
  lastUsedTab : V
  rejectedRoomInvites : V
  seenRoomInvites : V
  seenKnockRequests : V
  paymentType : V
  selectedFederationId : V
  latestAwareReleaseTag : V

def transformStateToStorage (state : CommonState V) : LatestStoredState V where
  version := 49
  onchainDepositsEnabled := state.environment.onchainDepositsEnabled
  developerMode := state.environment.developerMode
  stableBalanceEnabled := state.environment.stableBalanceEnabled
  language := state.environment.language
  amountInputType := state.environment.amountInputType
  transactionDisplayType := state.environment.transactionDisplayType
  deviceId := state.environment.deviceId
  currency := state.currency.overrideCurrency
  btcUsdRate := state.currency.btcUsdRate
  fiatUsdRates := state.currency.fiatUsdRates
  customFederationCurrencies := state.currency.customFederationCurrencies
  authenticatedGuardian := state.federation.authenticatedGuardian
  customFediMods := state.federation.customFediMods
  nuxSteps := state.nux.steps
  personalBackupReminder :=
    { countdownStartedAt := state.personalBackupReminder.countdownStartedAt
      hasReachedThresholds := state.personalBackupReminder.hasReachedThresholds }
  matrixAuth := state.matrix.auth
  protectedFeatures := state.security.protectedFeatures
  customGlobalMods := state.mod.customGlobalMods
  miniAppPermissions := state.mod.miniAppPermissions
  miniAppOrder := state.mod.miniAppOrder
  modVisibility := state.mod.modVisibility
  newMods := state.mod.newMods
  chatDrafts := state.matrix.drafts
  support :=
    { supportPermissionGranted := state.support.supportPermissionGranted
      zendeskPushNotificationToken := state.support.zendeskPushNotificationToken }
  seenFederationRatings := state.federation.seenFederationRatings
  lastShownSurveyTimestamp := state.survey.lastShownSurveyTimestamp
  surveyCompletions := state.survey.surveyCompletions
  lastSelectedCommunityId := state.federation.lastSelectedCommunityId
  recentlyUsedFederationIds := state.federation.recentlyUsedFederationIds
  previouslyAutojoinedCommunities := state.federation.previouslyAutojoinedCommunities
  autojoinNoticesToDisplay := state.federation.autojoinNoticesToDisplay
  analyticsId := state.analytics.analyticsId
  hasConsentedToAnalytics := state.analytics.hasConsentedToAnalytics
  sessionCount := state.environment.sessionCount
  hasSeenAnalyticsConsentModal := state.analytics.hasSeenAnalyticsConsentModal
  balanceDisplay := state.currency.balanceDisplay
  lastUsedTab := state.environment.lastUsedTab
  rejectedRoomInvites := state.matrix.rejectedRoomInvites
  seenRoomInvites := state.matrix.seenRoomInvites
  seenKnockRequests := state.matrix.seenKnockRequests
  paymentType := state.environment.paymentType
  selectedFederationId := state.federation.selectedFederationId
  latestAwareReleaseTag := state.environment.latestAwareReleaseTag

/-- The settings in the order of the fields. -/
def LatestStoredState.settings (s : LatestStoredState V) : List V := [
  s.onchainDepositsEnabled, s.developerMode, s.stableBalanceEnabled, s.language, s.amountInputType,
  s.transactionDisplayType, s.deviceId, s.currency, s.btcUsdRate, s.fiatUsdRates, s.customFederationCurrencies,
  s.authenticatedGuardian, s.customFediMods, s.nuxSteps, s.personalBackupReminder.countdownStartedAt,
  s.personalBackupReminder.hasReachedThresholds, s.matrixAuth, s.protectedFeatures, s.customGlobalMods,
  s.miniAppPermissions, s.miniAppOrder, s.modVisibility, s.newMods, s.chatDrafts, s.support.supportPermissionGranted,
  s.support.zendeskPushNotificationToken, s.seenFederationRatings, s.lastShownSurveyTimestamp, s.surveyCompletions,
  s.lastSelectedCommunityId, s.recentlyUsedFederationIds, s.previouslyAutojoinedCommunities,
  s.autojoinNoticesToDisplay, s.analyticsId, s.hasConsentedToAnalytics, s.sessionCount,
  s.hasSeenAnalyticsConsentModal, s.balanceDisplay, s.lastUsedTab, s.rejectedRoomInvites, s.seenRoomInvites,
  s.seenKnockRequests, s.paymentType, s.selectedFederationId, s.latestAwareReleaseTag]

/-- Two stored states are equal in depth. -/
structure LatestStoredState.Equal (content : V → W) (s s' : LatestStoredState V) : Prop where
  version : s.version = s'.version
  settings : s.settings.map content = s'.settings.map content

/-! ## The check -/

def keysetsToCheck : List (String × String) := [
  ("environment", "language"), ("environment", "amountInputType"), ("environment", "onchainDepositsEnabled"),
  ("environment", "developerMode"), ("environment", "stableBalanceEnabled"),
  ("environment", "transactionDisplayType"), ("environment", "deviceId"), ("environment", "sessionCount"),
  ("environment", "lastUsedTab"), ("environment", "paymentType"), ("environment", "latestAwareReleaseTag"),
  ("currency", "overrideCurrency"), ("currency", "customFederationCurrencies"), ("currency", "prices"),
  ("currency", "balanceDisplay"),
  ("federation", "recentlyUsedFederationIds"), ("federation", "lastSelectedCommunityId"),
  ("federation", "authenticatedGuardian"), ("federation", "seenFederationRatings"),
  ("federation", "previouslyAutojoinedCommunities"), ("federation", "autojoinNoticesToDisplay"),
  ("federation", "selectedFederationId"),
  ("matrix", "drafts"), ("matrix", "rejectedRoomInvites"), ("matrix", "seenRoomInvites"),
  ("matrix", "seenKnockRequests"),
  ("federation", "customFediMods"), ("matrix", "auth"), ("nux", "steps"),
  ("personalBackupReminder", "countdownStartedAt"), ("personalBackupReminder", "hasReachedThresholds"),
  ("security", "protectedFeatures"),
  ("mod", "customGlobalMods"), ("mod", "miniAppOrder"), ("mod", "modVisibility"), ("mod", "newMods"),
  ("mod", "miniAppPermissions"),
  ("support", "supportPermissionGranted"), ("support", "zendeskPushNotificationToken"),
  ("survey", "lastShownSurveyTimestamp"), ("survey", "surveyCompletions"),
  ("analytics", "analyticsId"), ("analytics", "hasConsentedToAnalytics"),
  ("analytics", "hasSeenAnalyticsConsentModal")]

def hasStorageStateChanged (js : Js V) (oldState newState : CommonState V) : Bool :=
  keysetsToCheck.any fun keys => !js.strictEq (get js.undefined oldState keys) (get js.undefined newState keys)

/-- `fetchCurrencyPrices.fulfilled`, where `merged` is the object with the old rates and the fetched ones. -/
def fetchCurrencyPricesFulfilled (state : CommonState V) (btcUsdRate merged : V) : CommonState V :=
  { state with currency := { state.currency with btcUsdRate := btcUsdRate, fiatUsdRates := merged } }

/-! ## The paths -/

/-- Where the settings come from. -/
def persistedKeys : List (String × String) := [
  ("environment", "onchainDepositsEnabled"), ("environment", "developerMode"),
  ("environment", "stableBalanceEnabled"), ("environment", "language"), ("environment", "amountInputType"),
  ("environment", "transactionDisplayType"), ("environment", "deviceId"), ("currency", "overrideCurrency"),
  ("currency", "btcUsdRate"), ("currency", "fiatUsdRates"), ("currency", "customFederationCurrencies"),
  ("federation", "authenticatedGuardian"), ("federation", "customFediMods"), ("nux", "steps"),
  ("personalBackupReminder", "countdownStartedAt"), ("personalBackupReminder", "hasReachedThresholds"),
  ("matrix", "auth"), ("security", "protectedFeatures"), ("mod", "customGlobalMods"), ("mod", "miniAppPermissions"),
  ("mod", "miniAppOrder"), ("mod", "modVisibility"), ("mod", "newMods"), ("matrix", "drafts"),
  ("support", "supportPermissionGranted"), ("support", "zendeskPushNotificationToken"),
  ("federation", "seenFederationRatings"), ("survey", "lastShownSurveyTimestamp"), ("survey", "surveyCompletions"),
  ("federation", "lastSelectedCommunityId"), ("federation", "recentlyUsedFederationIds"),
  ("federation", "previouslyAutojoinedCommunities"), ("federation", "autojoinNoticesToDisplay"),
  ("analytics", "analyticsId"), ("analytics", "hasConsentedToAnalytics"), ("environment", "sessionCount"),
  ("analytics", "hasSeenAnalyticsConsentModal"), ("currency", "balanceDisplay"), ("environment", "lastUsedTab"),
  ("matrix", "rejectedRoomInvites"), ("matrix", "seenRoomInvites"), ("matrix", "seenKnockRequests"),
  ("environment", "paymentType"), ("federation", "selectedFederationId"), ("environment", "latestAwareReleaseTag")]

def rateKeys : List (String × String) := [("currency", "btcUsdRate"), ("currency", "fiatUsdRates")]

/-- The settings other than the rates are identical in both states. -/
def OthersIdentical (js : Js V) (oldState newState : CommonState V) : Prop :=
  ∀ keys ∈ persistedKeys, keys ∉ rateKeys →
    js.strictEq (get js.undefined oldState keys) (get js.undefined newState keys) = true

/-- The rates are equal in both states. -/
structure RatesEqual (content : V → W) (oldState newState : CommonState V) : Prop where
  btcUsdRate : content oldState.currency.btcUsdRate = content newState.currency.btcUsdRate
  fiatUsdRates : content oldState.currency.fiatUsdRates = content newState.currency.fiatUsdRates

/-! ## Lemmas -/

/-- Every setting is what is found under its keys. -/
theorem settings_eq (undefined : V) (state : CommonState V) :
    (transformStateToStorage state).settings = persistedKeys.map (get undefined state) := rfl

/-- No state has prices. -/
theorem get_prices (undefined : V) (state : CommonState V) : get undefined state ("currency", "prices") = undefined := rfl

theorem rate_or_checked : ∀ keys ∈ persistedKeys, keys ∉ rateKeys → keys ∈ keysetsToCheck := by decide

theorem prices_or_persisted :
    ∀ keys ∈ keysetsToCheck, keys = ("currency", "prices") ∨ (keys ∈ persistedKeys ∧ keys ∉ rateKeys) := by decide

variable (js : Js V) (oldState newState : CommonState V)

theorem hasStorageStateChanged_eq_false :
    hasStorageStateChanged js oldState newState = false ↔ OthersIdentical js oldState newState := by
  unfold hasStorageStateChanged OthersIdentical
  simp only [List.any_eq_false, Bool.not_eq_true, Bool.not_eq_false']
  constructor
  · intro h keys hkeys hrate
    exact h keys (rate_or_checked keys hkeys hrate)
  · intro h keys hkeys
    rcases prices_or_persisted keys hkeys with rfl | ⟨hpersisted, hrate⟩
    · rw [get_prices, get_prices]
      exact js.strictEq_undefined
    · exact h keys hpersisted hrate

/-- Stored states are equal when what is found under each of the keys is. -/
theorem equal_iff : (transformStateToStorage oldState).Equal js.content (transformStateToStorage newState) ↔
    ∀ keys ∈ persistedKeys, js.content (get js.undefined oldState keys) = js.content (get js.undefined newState keys) := by
  constructor
  · intro h
    have hsettings := h.settings
    rw [settings_eq js.undefined, settings_eq js.undefined, List.map_map, List.map_map, List.map_inj_left] at hsettings
    exact hsettings
  · intro h
    refine ⟨rfl, ?_⟩
    rw [settings_eq js.undefined, settings_eq js.undefined, List.map_map, List.map_map, List.map_inj_left]
    exact h

theorem ratesEqual_iff : RatesEqual js.content oldState newState ↔
    ∀ keys ∈ rateKeys, js.content (get js.undefined oldState keys) = js.content (get js.undefined newState keys) := by
  unfold rateKeys
  rw [List.forall_mem_cons, List.forall_mem_singleton]
  exact ⟨fun h => ⟨h.btcUsdRate, h.fiatUsdRates⟩, fun h => ⟨h.1, h.2⟩⟩

/-- New rates are never seen. -/
theorem fetch_not_seen (state : CommonState V) (btcUsdRate merged : V) (hrefl : ∀ v, js.strictEq v v = true) :
    hasStorageStateChanged js state (fetchCurrencyPricesFulfilled state btcUsdRate merged) = false := by
  have hmap : keysetsToCheck.map (get js.undefined (fetchCurrencyPricesFulfilled state btcUsdRate merged)) =
      keysetsToCheck.map (get js.undefined state) := rfl
  have hsame := List.map_inj_left.mp hmap
  unfold hasStorageStateChanged
  rw [List.any_eq_false]
  intro keys hkeys
  rw [hsame keys hkeys, hrefl]
  exact Bool.false_ne_true

/-! ## Main result -/

/-- The check sees what changes the stored state iff it need not see the rates. -/
theorem dirty_check_iff (js : Js V) (oldState newState : CommonState V) :
    (hasStorageStateChanged js oldState newState = false →
      (transformStateToStorage oldState).Equal js.content (transformStateToStorage newState)) ↔
    (OthersIdentical js oldState newState → RatesEqual js.content oldState newState) := by
  rw [hasStorageStateChanged_eq_false, equal_iff, ratesEqual_iff]
  constructor
  · intro h hothers keys hrate
    have hpersisted : ∀ keys ∈ rateKeys, keys ∈ persistedKeys := by decide
    exact h hothers keys (hpersisted keys hrate)
  · intro h hothers keys hkeys
    by_cases hrate : keys ∈ rateKeys
    · exact h hothers keys hrate
    · exact js.content_of_strictEq _ _ (hothers keys hkeys hrate)

end

/-! ## The first prices -/

def numbers : Js ℕ where
  undefined := 0
  strictEq a b := decide (a = b)
  Content := ℕ
  content := id
  strictEq_undefined := by decide
  content_of_strictEq _ _ h := of_decide_eq_true h

def zeros : CommonState ℕ where
  environment := ⟨0, 0, 0, 0, 0, 0, 0, 0, 0, 0, 0⟩
  currency := ⟨0, 0, 0, 0, 0, 0⟩
  federation := ⟨0, 0, 0, 0, 0, 0, 0, 0⟩
  matrix := ⟨0, 0, 0, 0, 0⟩
  nux := ⟨0⟩
  personalBackupReminder := ⟨0, 0⟩
  security := ⟨0⟩
  mod := ⟨0, 0, 0, 0, 0⟩
  support := ⟨0, 0⟩
  survey := ⟨0, 0⟩
  analytics := ⟨0, 0, 0⟩

/-- The first prices that are fetched are not saved. -/
theorem prices_not_saved :
    ¬ ∀ (V : Type) (js : Js V) (oldState newState : CommonState V), hasStorageStateChanged js oldState newState = false →
      (transformStateToStorage oldState).Equal js.content (transformStateToStorage newState) := by
  intro hall
  have hequal := hall ℕ numbers zeros (fetchCurrencyPricesFulfilled zeros 60000 1) (by decide)
  have hrate : (0 : ℕ) = 60000 := (equal_iff numbers _ _).mp hequal ("currency", "btcUsdRate") (by decide)
  exact absurd hrate (by decide)

end Storage
