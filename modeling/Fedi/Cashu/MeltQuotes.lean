import Fedi.Cashu.Tokens
import Fedi.Lib.Fallible

/-!
# Melt quotes (`utils/cashu.ts`)

`getMeltQuotes` asks the mint for two quotes for each list of proofs, the second for what is left after the fees of
the first, and puts the proofs into the payload that will pay the second.  The bridge and the mint may answer
anything, in the light of all that they were asked before.

    quotes: the payload's mint with the proofs of each list, in order      (getMeltQuotes_ensures)
    there are quotes if every request is answered and the proofs are lists (getMeltQuotes_yields)
-/

namespace Cashu

open Cbor Fallible

/-! ## Requests -/

inductive Request where
  | generateInvoice (amountMsats : ResultValue) (description federationId : Text)
  /-- A `POST` to a path of the mint. -/
  | fetch (mintHost : ResultValue) (path : Text) (body : ResultValue)

/-- What is answered to a request that comes after others; the answer of a mint is read as JSON. -/
abbrev World := List Request → Request → Except CashuError ResultValue

abbrev Melt := StateT (List Request) (Except CashuError)

def ask (world : World) (r : Request) : Melt ResultValue := do
  let asked ← get
  let answer ← world asked r
  set (asked ++ [r])
  return answer

/-! ## Quotes -/

structure MeltPayload where
  quote : ResultValue
  inputs : ResultValue

structure MeltQuote where
  mintHost : ResultValue
  meltPayload : MeltPayload
  amountMsats : ResultValue
  feesMsats : ResultValue

structure MeltSummary where
  quotes : List MeltQuote
  totalFees : ResultValue
  totalAmount : ResultValue

structure UpdatedMeltQuote where
  amountMsats : ResultValue
  meltQuoteId : ResultValue
  quoteFeeReserveMsats : ResultValue

section

variable (platform : Platform) (world : World)

def satToMsat (sats : ResultValue) : ResultValue := platform.times sats (.number (.integer 1000))

def getMeltQuote (mintHost invoice : ResultValue) : Melt ResultValue :=
  ask world (.fetch mintHost "/v1/melt/quote/bolt11".toList
    (.object [("request".toList, invoice), ("unit".toList, .text "sat".toList)] none))

def buildMeltPayload (meltQuoteId proofs : ResultValue) : MeltPayload := { quote := meltQuoteId, inputs := proofs }

def getInvoiceFee (amountMsats : ResultValue) (federationId : Text) (mintHost : ResultValue) : Melt ResultValue := do
  let invoice ← ask world (.generateInvoice amountMsats "cashu melt".toList federationId)
  let meltQuote ← getMeltQuote world mintHost invoice
  let feeReserve ← getProperty meltQuote "fee_reserve".toList
  return satToMsat platform feeReserve

def getUpdatedMeltQuote (totalTokensSats : ResultValue) (federationId : Text) (mintHost : ResultValue) :
    Melt UpdatedMeltQuote := do
  let amountMsats := satToMsat platform totalTokensSats
  let targetFee ← getInvoiceFee platform world amountMsats federationId mintHost
  let candidateAmount := platform.minus amountMsats targetFee
  let candidateInvoice ← ask world (.generateInvoice candidateAmount "cashu melt".toList federationId)
  let quote ← getMeltQuote world mintHost candidateInvoice
  let amount ← getProperty quote "amount".toList
  let feeReserve ← getProperty quote "fee_reserve".toList
  let meltQuoteId ← getProperty quote "quote".toList
  return {
    amountMsats := satToMsat platform amount
    meltQuoteId := meltQuoteId
    quoteFeeReserveMsats := satToMsat platform feeReserve }

/-- `proofs.reduce((sum, proof) => sum + proof.amount, 0)`. -/
def totalAmounts (proofs : ResultValue) : Except CashuError ResultValue := do
  (← itemsOf proofs).foldlM (fun sum proof => do return platform.plus sum (← getProperty proof "amount".toList))
    (.number (.integer 0))

/-- The body of the loop over the tokens. -/
def meltQuoteOf (federationId : Text) (mintHost : ResultValue) (token : PayloadToken) : Melt MeltQuote := do
  let proofs := token.proofs
  let totalTokensSats ← totalAmounts platform proofs
  let updated ← getUpdatedMeltQuote platform world totalTokensSats federationId mintHost
  return {
    mintHost := mintHost
    meltPayload := buildMeltPayload updated.meltQuoteId proofs
    amountMsats := updated.amountMsats
    feesMsats := updated.quoteFeeReserveMsats }

def getMeltQuotes (tokens : Payload) (federationId : Option Text) : Melt MeltSummary :=
  match federationId with
  | none | some [] => throw .noFederationId
  | some federationId => do
    let quotes ← tokens.token.mapM (meltQuoteOf platform world federationId tokens.mint)
    return {
      quotes := quotes
      totalFees := (quotes.map (·.feesMsats)).foldl platform.plus (.number (.integer 0))
      totalAmount := (quotes.map (·.amountMsats)).foldl platform.plus (.number (.integer 0)) }

/-! ## Lemmas -/

variable {platform world}

/-- The quote melts the proofs of the token, at the mint. -/
def QuotesFor (mintHost : ResultValue) (token : PayloadToken) (quote : MeltQuote) : Prop :=
  quote.mintHost = mintHost ∧ quote.meltPayload.inputs = token.proofs

theorem meltQuoteOf_ensures (federationId : Text) (mintHost : ResultValue) (token : PayloadToken) :
    Ensures (meltQuoteOf platform world federationId mintHost token) (QuotesFor mintHost token) := by
  apply (ensures_any _).bind
  intro totalTokensSats _
  apply (ensures_any _).bind
  intro updated _
  exact ensures_pure ⟨rfl, rfl⟩

theorem getMeltQuotes_ensures (tokens : Payload) (federationId : Option Text) :
    Ensures (getMeltQuotes platform world tokens federationId)
      (fun summary => List.Forall₂ (QuotesFor tokens.mint) tokens.token summary.quotes) := by
  unfold getMeltQuotes
  split
  · exact ensures_throw
  · exact ensures_throw
  · rename_i federationId _
    apply (ensures_mapM (meltQuoteOf_ensures federationId tokens.mint) tokens.token).bind
    intro quotes hquotes
    exact ensures_pure hquotes

/-- Reading a property of it does not fail. -/
def hasProperties : ResultValue → Bool
  | .undefined | .null => false
  | _ => true

theorem getProperty_ok {value : ResultValue} (h : hasProperties value = true) (key : Text) :
    ∃ v, getProperty value key = .ok v := by
  cases value with
  | undefined => simp [hasProperties] at h
  | null => simp [hasProperties] at h
  | bool b => exact ⟨_, rfl⟩
  | number n => exact ⟨_, rfl⟩
  | bytes bs => exact ⟨_, rfl⟩
  | object entries proto => exact ⟨_, rfl⟩
  | text s =>
    unfold getProperty
    split_ifs
    · exact ⟨_, rfl⟩
    · exact ⟨_, rfl⟩
    · exact ⟨_, rfl⟩
  | array items =>
    unfold getProperty
    split_ifs
    · exact ⟨_, rfl⟩
    · exact ⟨_, rfl⟩
    · exact ⟨_, rfl⟩

/-- Every request is answered, and not with `null`. -/
def Answers (world : World) : Prop := ∀ asked r, ∃ answer, world asked r = .ok answer ∧ hasProperties answer = true

theorem yields_ask (hworld : Answers world) (r : Request) :
    Yields (ask world r) (fun answer => hasProperties answer = true) := by
  constructor
  intro asked
  obtain ⟨answer, hanswer, hprops⟩ := hworld asked r
  have hget : (get : Melt (List Request)) asked = .ok (asked, asked) := rfl
  have hlift : (liftM (world asked r) : Melt ResultValue) asked = .ok (answer, asked) := by
    rw [hanswer]
    rfl
  refine ⟨answer, asked ++ [r], ?_, hprops⟩
  rw [ask, bind_ok _ hget, bind_ok _ hlift]
  rfl

theorem yields_getProperty {value : ResultValue} (h : hasProperties value = true) (key : Text) :
    Yields (liftM (getProperty value key) : Melt ResultValue) (fun _ => True) := by
  obtain ⟨v, hv⟩ := getProperty_ok h key
  exact yields_lift hv trivial

theorem yields_getUpdatedMeltQuote (hworld : Answers world) (totalTokensSats : ResultValue) (federationId : Text)
    (mintHost : ResultValue) :
    Yields (getUpdatedMeltQuote platform world totalTokensSats federationId mintHost) (fun _ => True) := by
  have hfee : ∀ amountMsats, Yields (getInvoiceFee platform world amountMsats federationId mintHost) (fun _ => True) := by
    intro amountMsats
    apply (yields_ask hworld _).bind
    intro invoice _
    apply (yields_ask hworld _).bind
    intro meltQuote hquote
    apply (yields_getProperty hquote _).bind
    intro feeReserve _
    exact yields_pure trivial
  apply (hfee _).bind
  intro targetFee _
  apply (yields_ask hworld _).bind
  intro candidateInvoice _
  apply (yields_ask hworld _).bind
  intro quote hquote
  apply (yields_getProperty hquote _).bind
  intro amount _
  apply (yields_getProperty hquote _).bind
  intro feeReserve _
  apply (yields_getProperty hquote _).bind
  intro meltQuoteId _
  exact yields_pure trivial

theorem totalAmounts_ok {items : List ResultValue} (hitems : ∀ proof ∈ items, hasProperties proof = true) :
    ∃ total, totalAmounts platform (.array items) = .ok total := by
  have hfold : ∀ (items : List ResultValue) (sum : ResultValue), (∀ proof ∈ items, hasProperties proof = true) →
      ∃ total, items.foldlM (fun sum proof => do
        return platform.plus sum (← getProperty proof "amount".toList)) sum = (.ok total : Except CashuError _) := by
    intro items
    induction items with
    | nil =>
      intro sum _
      exact ⟨sum, rfl⟩
    | cons proof items ih =>
      intro sum hproofs
      obtain ⟨amount, hamount⟩ := getProperty_ok (hproofs proof (by simp)) "amount".toList
      rw [List.foldlM_cons, hamount]
      exact ih _ fun proof' hmem => hproofs proof' (List.mem_cons_of_mem proof hmem)
  exact hfold items _ hitems

theorem getMeltQuotes_yields (hworld : Answers world) {tokens : Payload} {federationId : Text} (hfederation : federationId ≠ [])
    (hproofs : ∀ token ∈ tokens.token, ∃ items, token.proofs = .array items ∧
      ∀ proof ∈ items, hasProperties proof = true) :
    Yields (getMeltQuotes platform world tokens (some federationId)) (fun _ => True) := by
  have hquote : ∀ token ∈ tokens.token,
      Yields (meltQuoteOf platform world federationId tokens.mint token) (fun _ => True) := by
    intro token htoken
    obtain ⟨items, hitems, hall⟩ := hproofs token htoken
    obtain ⟨total, htotal⟩ := @totalAmounts_ok platform items hall
    rw [← hitems] at htotal
    have hlift : Yields (liftM (totalAmounts platform token.proofs) : Melt ResultValue) (fun _ => True) :=
      yields_lift htotal trivial
    apply hlift.bind
    intro totalTokensSats _
    apply (yields_getUpdatedMeltQuote hworld _ federationId tokens.mint).bind
    intro updated _
    exact yields_pure trivial
  cases federationId with
  | nil => exact absurd rfl hfederation
  | cons c federationId =>
    apply (yields_mapM hquote).bind
    intro quotes _
    exact yields_pure trivial

end

end Cashu
