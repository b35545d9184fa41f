import Fedi.Cashu.MeltQuotes

/-!
# What becomes of the proofs of a token

A token of version 3 lists entries, each with a mint and proofs; of version 4, groups of proofs of one mint.  The
melt payloads should have every proof once, for the mint that the token names for it.  Of a token of version 3 they
have the proofs of the first entry.  Of a token of version 4 they have all, but a secret or a mint that starts with a
byte order mark loses it.

    no proof lost ↔ all entries but the first are empty        (version 3)
    no proof lost ↔ no mint or secret starts with the mark     (version 4; no_proof_lost_iff)
-/

namespace Cashu

open Cbor Fallible

/-! ## Tokens -/

structure Proof where
  amount : JsNumber
  secret : Text
  C : Text

structure TokenEntry where
  mint : Text
  proofs : List Proof

/-- The proofs of a token, each with its mint. -/
def proofsOf (entries : List TokenEntry) : List (Text × Proof) :=
  entries.flatMap fun entry => entry.proofs.map fun proof => (entry.mint, proof)

def IsProof (value : ResultValue) (proof : Proof) : Prop :=
  ∃ fields, value = .object fields none ∧
    fields.lookup "amount".toList = some (.number proof.amount) ∧
    fields.lookup "secret".toList = some (.text proof.secret) ∧
    fields.lookup "C".toList = some (.text proof.C)

def V3Entry (value : ResultValue) (entry : TokenEntry) : Prop :=
  ∃ fields items, value = .object fields none ∧
    fields.lookup "mint".toList = some (.text entry.mint) ∧
    fields.lookup "proofs".toList = some (.array items) ∧
    List.Forall₂ IsProof items entry.proofs

/-- What is shown or scanned: the token, after the scheme of a URI or without one. -/
def Shown (version body raw : Text) : Prop := ∃ uri, (uri = [] ∨ uri ∈ uriPrefixes) ∧ raw = uri ++ (version ++ body)

def V3Token (platform : Platform) (raw : Text) (entries : List TokenEntry) : Prop :=
  ∃ body fields items, Shown cashuA body raw ∧
    platform.parseJson (Utf8.decode (bufferFromBase64Url platform body).bytes) = some (.object fields none) ∧
    fields.lookup "token".toList = some (.array items) ∧
    List.Forall₂ V3Entry items entries

def V4Proof (value : ResultValue) (proof : Proof) : Prop :=
  ∃ fields c, value = .object fields none ∧ ordinaryKeys fields ∧
    fields.lookup "a".toList = some (.number proof.amount) ∧
    fields.lookup "s".toList = some (.text proof.secret) ∧
    fields.lookup "c".toList = some (.bytes c) ∧ proof.C = toHex c ∧
    (∀ d, fields.lookup "d".toList = some d → d.isObject = true) ∧
    (∀ w, fields.lookup "w".toList = some w → isText w = true)

def V4Group (value : ResultValue) (proofs : List Proof) : Prop :=
  ∃ fields i items, value = .object fields none ∧ ordinaryKeys fields ∧
    fields.lookup "i".toList = some (.bytes i) ∧
    fields.lookup "p".toList = some (.array items) ∧
    List.Forall₂ V4Proof items proofs

def V4Value (value : ResultValue) (mint : Text) (groups : List (List Proof)) : Prop :=
  ∃ fields u items, value = .object fields none ∧ ordinaryKeys fields ∧
    fields.lookup "m".toList = some (.text mint) ∧
    fields.lookup "u".toList = some (.text u) ∧
    (∀ d, fields.lookup "d".toList = some d → isText d = true) ∧
    fields.lookup "t".toList = some (.array items) ∧
    List.Forall₂ V4Group items groups

/-- The bytes of the token, in definite lengths and with integers below 2^53. -/
def V4Token (platform : Platform) (raw mint : Text) (groups : List (List Proof)) : Prop :=
  ∃ body value, Shown cashuB body raw ∧ Encodes value (bufferFromBase64Url platform body).bytes ∧
    V4Value value mint groups

def groupEntries (mint : Text) (groups : List (List Proof)) : List TokenEntry :=
  groups.map fun proofs => { mint := mint, proofs := proofs }

/-! ## Losing nothing -/

/-- `handleOmniInput`, for cashu. -/
def quoteCashuTokens (platform : Platform) (world : World) (raw : Text) (federationId : Option Text) : Melt MeltSummary := do
  let tokens ← decodeCashuTokens platform raw
  getMeltQuotes platform world tokens federationId

/-- Every input with the mint it will be sent to. -/
def inputsOfQuote (quote : MeltQuote) : List (ResultValue × ResultValue) :=
  match quote.meltPayload.inputs with
  | .array items => items.map fun item => (quote.mintHost, item)
  | _ => []

def inputsOf (summary : MeltSummary) : List (ResultValue × ResultValue) := summary.quotes.flatMap inputsOfQuote

def SentAs (input : ResultValue × ResultValue) (proof : Text × Proof) : Prop :=
  input.1 = .text proof.1 ∧ IsProof input.2 proof.2

/-- The inputs are these proofs, each once. -/
def MeltsExactly (all : List (Text × Proof)) (summary : MeltSummary) : Prop :=
  ∃ sent, List.Forall₂ SentAs (inputsOf summary) sent ∧ sent.Perm all

/-- Whatever the bridge and the mint answer, quotes that are returned melt these proofs; and they are returned, if
every request is answered. -/
def LosesNothing (platform : Platform) (raw : Text) (all : List (Text × Proof)) : Prop :=
  (∀ world federationId, Ensures (quoteCashuTokens platform world raw federationId) (MeltsExactly all)) ∧
  (∀ world federationId, Answers world → federationId ≠ [] →
    Yields (quoteCashuTokens platform world raw (some federationId)) (fun _ => True))

/-! ## Lemmas: payloads -/

/-- The payload has these proofs, in these lists. -/
def PayloadCarries (payload : Payload) (mint : Text) (groups : List (List Proof)) : Prop :=
  payload.mint = .text mint ∧
  List.Forall₂ (fun token proofs => ∃ items, token.proofs = .array items ∧ List.Forall₂ IsProof items proofs)
    payload.token groups

theorem isProof_unique {value : ResultValue} {proof proof' : Proof} (h : IsProof value proof) (h' : IsProof value proof') :
    proof = proof' := by
  obtain ⟨fields, rfl, hamount, hsecret, hC⟩ := h
  obtain ⟨fields', hvalue, hamount', hsecret', hC'⟩ := h'
  obtain ⟨rfl, _⟩ := ResultValue.object.inj hvalue
  rw [hamount, Option.some.injEq, ResultValue.number.injEq] at hamount'
  rw [hsecret, Option.some.injEq, ResultValue.text.injEq] at hsecret'
  rw [hC, Option.some.injEq, ResultValue.text.injEq] at hC'
  cases proof with
  | mk amount secret C => simp_all

theorem sentAs_unique {inputs : List (ResultValue × ResultValue)} {sent sent' : List (Text × Proof)}
    (h : List.Forall₂ SentAs inputs sent) (h' : List.Forall₂ SentAs inputs sent') : sent = sent' := by
  induction h generalizing sent' with
  | nil =>
    cases h' with
    | nil => rfl
  | cons hfirst _ ih =>
    cases h' with
    | cons hfirst' hrest' =>
      have hmint : ResultValue.text _ = .text _ := hfirst.1.symm.trans hfirst'.1
      rw [ih hrest', Prod.ext (ResultValue.text.inj hmint) (isProof_unique hfirst.2 hfirst'.2)]

theorem sentAs_group {mint : Text} {items : List ResultValue} {proofs : List Proof} (h : List.Forall₂ IsProof items proofs) :
    List.Forall₂ SentAs (items.map fun item => (ResultValue.text mint, item)) (proofs.map fun proof => (mint, proof)) := by
  induction h with
  | nil => exact .nil
  | cons hproof _ ih => exact .cons ⟨rfl, hproof⟩ ih

theorem proofsOf_cons (entry : TokenEntry) (entries : List TokenEntry) :
    proofsOf (entry :: entries) = entry.proofs.map (fun proof => (entry.mint, proof)) ++ proofsOf entries := rfl

theorem sentAs_groups {mint : Text} {tokens : List PayloadToken} {quotes : List MeltQuote} {groups : List (List Proof)}
    (hquotes : List.Forall₂ (QuotesFor (.text mint)) tokens quotes)
    (hgroups : List.Forall₂ (fun token proofs => ∃ items, token.proofs = .array items ∧ List.Forall₂ IsProof items proofs)
      tokens groups) :
    List.Forall₂ SentAs (quotes.flatMap inputsOfQuote) (proofsOf (groupEntries mint groups)) := by
  induction hquotes generalizing groups with
  | nil =>
    cases hgroups with
    | nil => exact .nil
  | cons hquote _ ih =>
    rename_i token quote tokens quotes _
    cases hgroups with
    | cons hgroup hrest =>
      obtain ⟨items, hitems, hproofs⟩ := hgroup
      have hinputs : inputsOfQuote quote = items.map fun item => (ResultValue.text mint, item) := by
        simp only [inputsOfQuote, hquote.2, hitems, hquote.1]
      rw [List.flatMap_cons, hinputs]
      exact List.rel_append (sentAs_group hproofs) (ih hrest)

theorem inputs_of_payload {payload : Payload} {mint : Text} {groups : List (List Proof)} {summary : MeltSummary}
    (hcarries : PayloadCarries payload mint groups)
    (hquotes : List.Forall₂ (QuotesFor payload.mint) payload.token summary.quotes) :
    List.Forall₂ SentAs (inputsOf summary) (proofsOf (groupEntries mint groups)) := by
  rw [hcarries.1] at hquotes
  exact sentAs_groups hquotes hcarries.2

theorem hasProperties_of_isProof {value : ResultValue} {proof : Proof} (h : IsProof value proof) :
    hasProperties value = true := by
  obtain ⟨fields, rfl, _⟩ := h
  rfl

/-- Every list in the payload is a list of objects. -/
theorem proofs_of_payload {payload : Payload} {mint : Text} {groups : List (List Proof)}
    (hcarries : PayloadCarries payload mint groups) : ∀ token ∈ payload.token, ∃ items, token.proofs = .array items ∧
      ∀ proof ∈ items, hasProperties proof = true := by
  refine forall_left hcarries.2 ?_
  intro token proofs hgroup
  obtain ⟨items, hitems, hproofs⟩ := hgroup
  exact ⟨items, hitems, forall_left hproofs fun value proof hproof => hasProperties_of_isProof hproof⟩

/-- A world that answers everything. -/
def yesWorld : World := fun _ _ => .ok (.bool true)

theorem quoteCashuTokens_of_payload {platform : Platform} {raw : Text} {payload : Payload}
    (hdecode : decodeCashuTokens platform raw = .ok payload) (world : World) (federationId : Option Text) :
    quoteCashuTokens platform world raw federationId = getMeltQuotes platform world payload federationId := by
  unfold quoteCashuTokens
  rw [hdecode]
  rfl

theorem losesNothing_iff {platform : Platform} {raw : Text} {payload : Payload} {mint : Text} {groups : List (List Proof)}
    (hdecode : decodeCashuTokens platform raw = .ok payload) (hcarries : PayloadCarries payload mint groups)
    (all : List (Text × Proof)) :
    LosesNothing platform raw all ↔ (proofsOf (groupEntries mint groups)).Perm all := by
  have hyields : ∀ world federationId, Answers world → federationId ≠ [] →
      Yields (quoteCashuTokens platform world raw (some federationId)) (fun _ => True) := by
    intro world federationId hworld hfederation
    rw [quoteCashuTokens_of_payload hdecode]
    exact getMeltQuotes_yields hworld hfederation (proofs_of_payload hcarries)
  constructor
  · intro h
    have hanswers : Answers yesWorld := fun _ _ => ⟨.bool true, rfl, rfl⟩
    obtain ⟨summary, asked, hrun, _⟩ := (hyields yesWorld "f".toList hanswers (by simp)).run []
    obtain ⟨sent, hsent, hperm⟩ := (h.1 yesWorld (some "f".toList)).of_run [] summary asked hrun
    rw [quoteCashuTokens_of_payload hdecode] at hrun
    have hquotes := (getMeltQuotes_ensures payload (some "f".toList)).of_run [] summary asked hrun
    rw [sentAs_unique (inputs_of_payload hcarries hquotes) hsent]
    exact hperm
  · intro hperm
    refine ⟨?_, hyields⟩
    intro world federationId
    constructor
    intro asked summary asked' hrun
    rw [quoteCashuTokens_of_payload hdecode] at hrun
    have hquotes := (getMeltQuotes_ensures payload federationId).of_run asked summary asked' hrun
    exact ⟨_, inputs_of_payload hcarries hquotes, hperm⟩

/-! ## Lemmas: version 3 -/

theorem validateCashuTokens_shown {version body raw : Text} (hversion : version = cashuA ∨ version = cashuB)
    (hraw : Shown version body raw) : validateCashuTokens raw = .ok (version ++ body) := by
  obtain ⟨uri, huri, rfl⟩ := hraw
  simp only [uriPrefixes, List.mem_cons, List.not_mem_nil, or_false] at huri
  rcases hversion with rfl | rfl <;> rcases huri with rfl | rfl | rfl | rfl <;> rfl

theorem replace_version {version : Text} (body : Text) (hversion : version = cashuA ∨ version = cashuB) :
    replace version [] (version ++ body) = body := by
  rcases hversion with rfl | rfl <;> rfl

theorem inherited_object (fields : List (Text × ResultValue)) (key : Text) :
    inherited key (some (.object fields none)) = fields.lookup key := by
  rw [inherited]
  cases fields.lookup key with
  | none => simp [inherited]
  | some value => rfl

theorem getProperty_object {fields : List (Text × ResultValue)} {key : Text} {value : ResultValue}
    (h : fields.lookup key = some value) : getProperty (.object fields none) key = .ok value := by
  simp [getProperty, inherited_object, h]

theorem getProperty_absent {fields : List (Text × ResultValue)} {key : Text} (h : fields.lookup key = none) :
    getProperty (.object fields none) key = .ok .undefined := by
  simp [getProperty, inherited_object, h]

theorem hasProperty_object {fields : List (Text × ResultValue)} {key : Text} {value : ResultValue}
    (h : fields.lookup key = some value) : hasProperty (.object fields none) key = .ok true := by
  simp [hasProperty, inherited_object, h]

theorem decodeCashuTokens_legacy {platform : Platform} {raw body : Text} (hraw : Shown cashuA body raw) :
    decodeCashuTokens platform raw = decodeCashuTokenLegacy platform (cashuA ++ body) := by
  unfold decodeCashuTokens
  rw [validateCashuTokens_shown (.inl rfl) hraw]
  rfl

theorem decodeCashuTokens_v4 {platform : Platform} {raw body : Text} (hraw : Shown cashuB body raw) :
    decodeCashuTokens platform raw = decodeCashuTokenV4 platform (cashuB ++ body) := by
  unfold decodeCashuTokens
  rw [validateCashuTokens_shown (.inr rfl) hraw]
  rfl

/-- Of the entries, the first is taken. -/
theorem decode_v3 {platform : Platform} {raw : Text} {entry : TokenEntry} {entries : List TokenEntry}
    (h : V3Token platform raw (entry :: entries)) :
    ∃ payload, decodeCashuTokens platform raw = .ok payload ∧ PayloadCarries payload entry.mint [entry.proofs] := by
  obtain ⟨body, fields, items, hraw, hparse, htoken, hitems⟩ := h
  cases hitems with
  | cons hentry _ =>
    rename_i values _
    obtain ⟨entryFields, proofs, rfl, hmint, hproofs, hall⟩ := hentry
    refine ⟨{ mint := .text entry.mint, token := [{ proofs := .array proofs }] }, ?_, rfl, ?_⟩
    · have hfirst : getProperty (.array (.object entryFields none :: values)) "0".toList =
          .ok (.object entryFields none) := rfl
      rw [decodeCashuTokens_legacy hraw, decodeCashuTokenLegacy, replace_version body (.inl rfl), hparse]
      simp only [hasProperty_object htoken, getProperty_object htoken, isArray, firstToken, hfirst,
        getProperty_object hmint, getProperty_object hproofs, bind, Except.bind, Bool.and_true, if_true]
    · exact .cons ⟨proofs, rfl, hall⟩ .nil

/-! ## Lemmas: version 4, decoded -/

/-- The proof with its secret as it comes back. -/
def Proof.decoded (proof : Proof) : Proof := { proof with secret := decodeText (Utf8.encode proof.secret) }

theorem mem_of_lookup {fields : List (Text × ResultValue)} {key : Text} {value : ResultValue}
    (h : fields.lookup key = some value) : (key, value) ∈ fields := by
  induction fields with
  | nil => simp at h
  | cons e fields ih =>
    rw [List.lookup_cons] at h
    cases hkey : key == e.1 with
    | true =>
      simp only [hkey, Option.some.injEq] at h
      rw [eq_of_beq hkey, ← h]
      exact List.mem_cons_self
    | false =>
      simp only [hkey] at h
      exact List.mem_cons_of_mem e (ih h)

theorem isObject_decoded (value : ResultValue) : (Cbor.decoded value).isObject = value.isObject := by
  cases value <;> rfl

theorem isText_decoded (value : ResultValue) : isText (Cbor.decoded value) = isText value := by
  cases value <;> rfl

theorem lookup_decoded {fields : List (Text × ResultValue)} (hkeys : ordinaryKeys fields) {key : Text} {value : ResultValue}
    (h : fields.lookup key = some value) : (decodedEntries fields).lookup key = some (Cbor.decoded value) := by
  rw [lookup_decodedEntries hkeys, h, Option.map_some]

/-- What holds of an optional field before holds after. -/
theorem optional_decoded {fields : List (Text × ResultValue)} (hkeys : ordinaryKeys fields) {key : Text}
    {p : ResultValue → Bool} (hp : ∀ value, p (Cbor.decoded value) = p value)
    (h : ∀ value, fields.lookup key = some value → p value = true) :
    ∀ value, (decodedEntries fields).lookup key = some value → p value = true := by
  intro value hvalue
  rw [lookup_decodedEntries hkeys, Option.map_eq_some_iff] at hvalue
  obtain ⟨before, hbefore, rfl⟩ := hvalue
  rw [hp]
  exact h before hbefore

theorem forall₂_decoded {α : Type} {R S : ResultValue → α → Prop} {f : α → α} {items : List ResultValue} {as : List α}
    (h : List.Forall₂ R items as) (hstep : ∀ v ∈ items, ∀ a, R v a → S (Cbor.decoded v) (f a)) :
    List.Forall₂ S (decodedItems items) (as.map f) := by
  induction h with
  | nil => exact .nil
  | cons hfirst _ ih =>
    refine .cons (hstep _ (by simp) _ hfirst) (ih ?_)
    intro v hv
    exact hstep v (List.mem_cons_of_mem _ hv)

theorem decoded_v4Proof {value : ResultValue} {bytes : List UInt8} {proof : Proof} (hvalue : Encodes value bytes)
    (h : V4Proof value proof) : V4Proof (Cbor.decoded value) proof.decoded := by
  obtain ⟨fields, c, rfl, hkeys, ha, hs, hc, hC, hd, hw⟩ := h
  refine ⟨decodedEntries fields, c, decoded_ordinary hkeys (encodes_field hvalue).1, ordinaryKeys_decodedEntries hkeys, ?_, ?_,
    ?_, hC, ?_, ?_⟩
  · exact lookup_decoded hkeys ha
  · exact lookup_decoded hkeys hs
  · exact lookup_decoded hkeys hc
  · exact optional_decoded hkeys isObject_decoded hd
  · exact optional_decoded hkeys isText_decoded hw

theorem decoded_v4Group {value : ResultValue} {bytes : List UInt8} {proofs : List Proof} (hvalue : Encodes value bytes)
    (h : V4Group value proofs) : V4Group (Cbor.decoded value) (proofs.map Proof.decoded) := by
  obtain ⟨fields, i, items, rfl, hkeys, hi, hp, hproofs⟩ := h
  obtain ⟨hnodup, hparts⟩ := encodes_field hvalue
  obtain ⟨part, hitems⟩ := hparts _ (mem_of_lookup hp)
  refine ⟨decodedEntries fields, i, decodedItems items, decoded_ordinary hkeys hnodup, ordinaryKeys_decodedEntries hkeys,
    lookup_decoded hkeys hi, lookup_decoded hkeys hp, ?_⟩
  apply forall₂_decoded hproofs
  intro v hv proof hproof
  obtain ⟨part', hv'⟩ := encodes_item hitems v hv
  exact decoded_v4Proof hv' hproof

theorem decoded_v4Value {value : ResultValue} {bytes : List UInt8} {mint : Text} {groups : List (List Proof)}
    (hvalue : Encodes value bytes) (h : V4Value value mint groups) :
    V4Value (Cbor.decoded value) (decodeText (Utf8.encode mint)) (groups.map (List.map Proof.decoded)) := by
  obtain ⟨fields, u, items, rfl, hkeys, hm, hu, hd, ht, hgroups⟩ := h
  obtain ⟨hnodup, hparts⟩ := encodes_field hvalue
  obtain ⟨part, hitems⟩ := hparts _ (mem_of_lookup ht)
  refine ⟨decodedEntries fields, decodeText (Utf8.encode u), decodedItems items, decoded_ordinary hkeys hnodup,
    ordinaryKeys_decodedEntries hkeys, lookup_decoded hkeys hm, lookup_decoded hkeys hu,
    optional_decoded hkeys isText_decoded hd, lookup_decoded hkeys ht, ?_⟩
  apply forall₂_decoded hgroups
  intro v hv proofs hproofs
  obtain ⟨part', hv'⟩ := encodes_item hitems v hv
  exact decoded_v4Group hv' hproofs

/-! ## Lemmas: version 4, checked and parsed -/

/-- An optional field is absent, or passes its check. -/
theorem getProperty_optional {fields : List (Text × ResultValue)} {key : Text} {p : ResultValue → Bool}
    (h : ∀ value, fields.lookup key = some value → p value = true) :
    ∃ value, getProperty (.object fields none) key = .ok value ∧ (isUndefined value = true ∨ p value = true) := by
  cases hlookup : fields.lookup key with
  | none => exact ⟨.undefined, getProperty_absent hlookup, .inl rfl⟩
  | some value => exact ⟨value, getProperty_object hlookup, .inr (h value hlookup)⟩

theorem everyItem_true {check : ResultValue → Except CashuError Bool} {items : List ResultValue}
    (h : ∀ item ∈ items, check item = .ok true) : everyItem check items = .ok true := by
  induction items with
  | nil => rfl
  | cons item items ih =>
    rw [everyItem, h item (by simp)]
    exact ih fun item' hmem => h item' (List.mem_cons_of_mem item hmem)

theorem isValidProof_of_v4 {value : ResultValue} {proof : Proof} (h : V4Proof value proof) :
    isValidProof value = .ok true := by
  obtain ⟨fields, c, rfl, _, ha, hs, hc, _, hd, hw⟩ := h
  obtain ⟨d, hd, hdOk⟩ := getProperty_optional hd
  obtain ⟨w, hw, hwOk⟩ := getProperty_optional hw
  have hdCheck : (!isUndefined d && !d.isObject) = false := by
    rcases hdOk with h | h
    · simp [h]
    · simp [h]
  have hwCheck : (!isUndefined w && !isText w) = false := by
    rcases hwOk with h | h
    · simp [h]
    · simp [h]
  simp only [isValidProof, isValidResultType_object, getProperty_object ha, getProperty_object hs, getProperty_object hc,
    hd, hw, hdCheck, hwCheck, isNumber_number, isText_text, isBytes_bytes, bind, Except.bind]
  rfl

theorem isValidGroup_of_v4 {value : ResultValue} {proofs : List Proof} (h : V4Group value proofs) :
    isValidGroup value = .ok true := by
  obtain ⟨fields, i, items, rfl, _, hi, hp, hproofs⟩ := h
  have hall : everyItem isValidProof items = .ok true :=
    everyItem_true (forall_left hproofs fun item proof hproof => isValidProof_of_v4 hproof)
  simp only [isValidGroup, isValidResultType_object, hasProperty_object hi, hasProperty_object hp,
    getProperty_object hi, getProperty_object hp, isBytes_bytes, hall, bind, Except.bind]
  rfl

theorem isValidCashuV4Token_of_v4 {value : ResultValue} {mint : Text} {groups : List (List Proof)}
    (h : V4Value value mint groups) : isValidCashuV4Token value = .ok true := by
  obtain ⟨fields, u, items, rfl, _, hm, hu, hd, ht, hgroups⟩ := h
  obtain ⟨d, hd, hdOk⟩ := getProperty_optional hd
  have hdCheck : (!isText d && !isUndefined d) = false := by
    rcases hdOk with h | h
    · simp [h]
    · simp [h]
  have hall : everyItem isValidGroup items = .ok true :=
    everyItem_true (forall_left hgroups fun item proofs hgroup => isValidGroup_of_v4 hgroup)
  simp only [isValidCashuV4Token, isValidResultType_object, getProperty_object hm, getProperty_object hu,
    getProperty_object ht, hd, hdCheck, isText_text, hall, bind, Except.bind]
  rfl

theorem parseCashuV4Proof_ok {i : List UInt8} {value : ResultValue} {proof : Proof} (h : V4Proof value proof) :
    ∃ parsed, parseCashuV4Proof (.bytes i) value = .ok parsed ∧ IsProof parsed proof := by
  obtain ⟨fields, c, rfl, _, ha, hs, hc, hC, _⟩ := h
  let parsed : List (Text × ResultValue) := [("id".toList, .text (toHex i)), ("amount".toList, .number proof.amount),
    ("secret".toList, .text proof.secret), ("C".toList, .text (toHex c))]
  refine ⟨.object parsed none, ?_, parsed, rfl, rfl, rfl, ?_⟩
  · simp only [parseCashuV4Proof, getProperty_object ha, getProperty_object hs, getProperty_object hc, bufferToHex, bind,
      Except.bind, parsed]
    rfl
  · rw [hC]
    rfl

theorem parseSingleCashuV4Token_ok {value : ResultValue} {proofs : List Proof} (h : V4Group value proofs) :
    ∃ token, parseSingleCashuV4Token value = .ok token ∧
      ∃ items, token.proofs = .array items ∧ List.Forall₂ IsProof items proofs := by
  obtain ⟨fields, i, items, rfl, _, hi, hp, hproofs⟩ := h
  obtain ⟨parsed, hparsed, hall⟩ := mapM_ok hproofs fun value proof hproof => @parseCashuV4Proof_ok i value proof hproof
  refine ⟨{ proofs := .array parsed }, ?_, parsed, rfl, hall⟩
  simp only [parseSingleCashuV4Token, getProperty_object hi, getProperty_object hp, itemsOf, hparsed, bind, Except.bind]
  rfl

/-- Of the groups, all are taken; the mint and the secrets are as they come back from the decoder. -/
theorem decode_v4 {platform : Platform} {raw mint : Text} {groups : List (List Proof)}
    (h : V4Token platform raw mint groups) :
    ∃ payload, decodeCashuTokens platform raw = .ok payload ∧
      PayloadCarries payload (decodeText (Utf8.encode mint)) (groups.map (List.map Proof.decoded)) := by
  obtain ⟨body, value, hraw, hencodes, hvalue⟩ := h
  have hlength : (bufferFromBase64Url platform body).bytes.length < 2 ^ 53 := by
    rw [View.length_bytes]
    exact View.byteLength_lt _
  have hread := (decodeCBOR_encoded platform.numberToString _ hencodes hlength).1 rfl
  have hdecoded := decoded_v4Value hencodes hvalue
  have hvalid := isValidCashuV4Token_of_v4 hdecoded
  obtain ⟨fields, u, items, hobject, _, hm, _, _, ht, hgroups⟩ := hdecoded
  rw [hobject] at hread hvalid
  obtain ⟨tokens, htokens, hall⟩ := mapM_ok hgroups fun value proofs hgroup => parseSingleCashuV4Token_ok hgroup
  refine ⟨{ mint := .text (decodeText (Utf8.encode mint)), token := tokens }, ?_, rfl, hall⟩
  rw [decodeCashuTokens_v4 hraw, decodeCashuTokenV4, replace_version body (.inr rfl), hread]
  simp only [isValidResultType_object, hvalid, getProperty_object hm, getProperty_object ht, itemsOf,
    coerceCashuV4TokensArray, htokens, bind, Except.bind]
  rfl

/-! ## Lemmas: what is lost -/

theorem sum_le_of_shrinks {α : Type} {f : α → α} {size : α → ℕ} (hle : ∀ a, size (f a) ≤ size a) (as : List α) :
    ((as.map f).map size).sum ≤ (as.map size).sum := by
  induction as with
  | nil => exact Nat.le_refl _
  | cons a as ih =>
    have hfirst := hle a
    simp only [List.map_cons, List.sum_cons]
    omega

/-- A map that makes things smaller, or leaves them, permutes a list only by leaving it. -/
theorem perm_map_iff {α : Type} {f : α → α} {size : α → ℕ} (hle : ∀ a, size (f a) ≤ size a)
    (hsame : ∀ a, size (f a) = size a → f a = a) (as : List α) : (as.map f).Perm as ↔ ∀ a ∈ as, f a = a := by
  constructor
  · intro hperm
    have hsum : ((as.map f).map size).sum = (as.map size).sum := (hperm.map size).sum_nat
    clear hperm
    induction as with
    | nil => simp
    | cons a as ih =>
      have hfirst := hle a
      have hrest := sum_le_of_shrinks hle as
      simp only [List.map_cons, List.sum_cons] at hsum
      refine List.forall_mem_cons.mpr ⟨hsame a (by omega), ih (by omega)⟩
  · intro h
    rw [List.map_congr_left h, List.map_id'']
    intro a
    rfl

theorem length_decodeText_le (s : Text) : (decodeText (Utf8.encode s)).length ≤ s.length ∧
    ((decodeText (Utf8.encode s)).length = s.length → decodeText (Utf8.encode s) = s) := by
  by_cases hplain : plainText s = true
  · rw [(decodeText_encode_iff s).mpr hplain]
    exact ⟨Nat.le_refl _, fun _ => rfl⟩
  · cases s with
    | nil => simp [plainText] at hplain
    | cons c s =>
      have hmark : c = byteOrderMark := by simpa [plainText] using hplain
      rw [hmark, decodeText_encode_mark, List.length_cons]
      omega

/-- A proof and its mint, as they come back. -/
def decodedProof (p : Text × Proof) : Text × Proof := (decodeText (Utf8.encode p.1), p.2.decoded)

def textLength (p : Text × Proof) : ℕ := p.1.length + p.2.secret.length

theorem decodedProof_eq_iff (p : Text × Proof) :
    decodedProof p = p ↔ plainText p.1 = true ∧ plainText p.2.secret = true := by
  rw [← decodeText_encode_iff, ← decodeText_encode_iff, decodedProof, Prod.ext_iff]
  refine and_congr_right fun _ => ?_
  constructor
  · intro h
    exact congrArg Proof.secret h
  · intro h
    show p.2.decoded = p.2
    rw [Proof.decoded, h]

theorem decodedProof_shrinks (p : Text × Proof) : textLength (decodedProof p) ≤ textLength p ∧
    (textLength (decodedProof p) = textLength p → decodedProof p = p) := by
  obtain ⟨hmint, hmint'⟩ := length_decodeText_le p.1
  obtain ⟨hsecret, hsecret'⟩ := length_decodeText_le p.2.secret
  have hlength : textLength (decodedProof p) =
      (decodeText (Utf8.encode p.1)).length + (decodeText (Utf8.encode p.2.secret)).length := rfl
  have hlength' : textLength p = p.1.length + p.2.secret.length := rfl
  rw [hlength, hlength']
  refine ⟨by omega, fun heq => ?_⟩
  rw [decodedProof_eq_iff, ← decodeText_encode_iff, ← decodeText_encode_iff]
  exact ⟨hmint' (by omega), hsecret' (by omega)⟩

theorem groupEntries_cons (mint : Text) (proofs : List Proof) (groups : List (List Proof)) :
    groupEntries mint (proofs :: groups) = { mint := mint, proofs := proofs } :: groupEntries mint groups := rfl

theorem proofsOf_decoded (mint : Text) (groups : List (List Proof)) :
    proofsOf (groupEntries (decodeText (Utf8.encode mint)) (groups.map (List.map Proof.decoded))) =
      (proofsOf (groupEntries mint groups)).map decodedProof := by
  induction groups with
  | nil => rfl
  | cons proofs groups ih =>
    rw [List.map_cons, groupEntries_cons, proofsOf_cons, ih, groupEntries_cons, proofsOf_cons, List.map_append]
    simp only [List.map_map]
    rfl

theorem perm_first_iff (entry : TokenEntry) (entries : List TokenEntry) :
    (proofsOf (groupEntries entry.mint [entry.proofs])).Perm (proofsOf (entry :: entries)) ↔
      ∀ e ∈ entries, e.proofs = [] := by
  have hfirst : proofsOf (groupEntries entry.mint [entry.proofs]) = entry.proofs.map fun proof => (entry.mint, proof) := by
    simp [proofsOf, groupEntries]
  have hrest : proofsOf entries = [] ↔ ∀ e ∈ entries, e.proofs = [] := by
    simp [proofsOf, List.flatMap_eq_nil_iff]
  rw [hfirst, proofsOf_cons, ← hrest]
  constructor
  · intro hperm
    have hlength := hperm.length_eq
    rw [List.length_append] at hlength
    exact List.length_eq_zero_iff.mp (by omega)
  · intro h
    rw [h, List.append_nil]

/-! ## Main results -/

theorem no_proof_lost_iff (platform : Platform) (raw : Text) :
    (∀ entries, entries ≠ [] → V3Token platform raw entries →
      (LosesNothing platform raw (proofsOf entries) ↔ ∀ entry ∈ entries.tail, entry.proofs = [])) ∧
    (∀ mint groups, V4Token platform raw mint groups →
      (LosesNothing platform raw (proofsOf (groupEntries mint groups)) ↔
        ∀ p ∈ proofsOf (groupEntries mint groups), plainText p.1 = true ∧ plainText p.2.secret = true)) := by
  constructor
  · intro entries hne h
    cases entries with
    | nil => exact absurd rfl hne
    | cons entry entries =>
      obtain ⟨payload, hdecode, hcarries⟩ := decode_v3 h
      rw [losesNothing_iff hdecode hcarries, List.tail_cons]
      exact perm_first_iff entry entries
  · intro mint groups h
    obtain ⟨payload, hdecode, hcarries⟩ := decode_v4 h
    rw [losesNothing_iff hdecode hcarries, proofsOf_decoded,
      perm_map_iff (fun p => (decodedProof_shrinks p).1) (fun p => (decodedProof_shrinks p).2)]
    exact forall₂_congr fun p _ => decodedProof_eq_iff p

/-! ## A token of two mints -/

def twoMintsEntries : List TokenEntry :=
  [{ mint := "https://a".toList, proofs := [{ amount := .integer 1, secret := "s".toList, C := "02".toList }] },
   { mint := "https://b".toList, proofs := [{ amount := .integer 2, secret := "t".toList, C := "03".toList }] }]

def twoMintsText : Text :=
  ("\x7b\"token\":[" ++
    "\x7b\"mint\":\"https://a\",\"proofs\":[\x7b\"id\":\"00\",\"amount\":1,\"secret\":\"s\",\"C\":\"02\"\x7d]\x7d," ++
    "\x7b\"mint\":\"https://b\",\"proofs\":[\x7b\"id\":\"00\",\"amount\":2,\"secret\":\"t\",\"C\":\"03\"\x7d]\x7d" ++
    "]\x7d").toList

def twoMintsBase64 : Text :=
  ("eyJ0b2tlbiI6W3sibWludCI6Imh0dHBzOi8vYSIsInByb29mcyI6W3siaWQiOiIwMCIsImFtb3VudCI6" ++
    "MSwic2VjcmV0IjoicyIsIkMiOiIwMiJ9XX0seyJtaW50IjoiaHR0cHM6Ly9iIiwicHJvb2ZzIjpbeyJp" ++
    "ZCI6IjAwIiwiYW1vdW50IjoyLCJzZWNyZXQiOiJ0IiwiQyI6IjAzIn1dfV19").toList

def jsonProof (proof : Proof) : ResultValue :=
  .object [("id".toList, .text "00".toList), ("amount".toList, .number proof.amount), ("secret".toList, .text proof.secret),
    ("C".toList, .text proof.C)] none

def jsonEntry (entry : TokenEntry) : ResultValue :=
  .object [("mint".toList, .text entry.mint), ("proofs".toList, .array (entry.proofs.map jsonProof))] none

def twoMintsJson : List (Text × ResultValue) := [("token".toList, .array (twoMintsEntries.map jsonEntry))]

theorem bytes_whole (bytes : List UInt8) (hfits : 0 + bytes.length ≤ bytes.length) (hsafe : bytes.length < 2 ^ 53) :
    View.bytes { buffer := bytes, byteOffset := 0, byteLength := bytes.length, fits := hfits, safe := hsafe } = bytes := by
  simp [View.bytes]

theorem twoMintsText_short : (Utf8.encode twoMintsText).length < 2 ^ 53 := by
  have hle : (Utf8.encode twoMintsText).length ≤ 4 * twoMintsText.length := Utf8.length_encode_le twoMintsText
  have hlength : twoMintsText.length = 165 := by decide +kernel
  omega

/-- What the libraries make of this token. -/
def twoMintsPlatform : Platform where
  parseJson s := if s = twoMintsText then some (.object twoMintsJson none) else none
  fromBase64 _ := {
    buffer := Utf8.encode twoMintsText
    byteOffset := 0
    byteLength := (Utf8.encode twoMintsText).length
    fits := by omega
    safe := twoMintsText_short }
  numberToString _ := []
  plus a _ := a
  minus a _ := a
  times a _ := a
  greater _ _ := false
  truthy _ := false

theorem isProof_jsonProof (proof : Proof) : IsProof (jsonProof proof) proof := ⟨_, rfl, rfl, rfl, rfl⟩

/-- The proof of the second mint is in no payload. -/
theorem second_mint_lost :
    V3Token twoMintsPlatform (cashuA ++ twoMintsBase64) twoMintsEntries ∧
    ¬ LosesNothing twoMintsPlatform (cashuA ++ twoMintsBase64) (proofsOf twoMintsEntries) := by
  have htext : (bufferFromBase64Url twoMintsPlatform twoMintsBase64).bytes = Utf8.encode twoMintsText := by
    unfold bufferFromBase64Url twoMintsPlatform
    exact bytes_whole _ _ _
  have hparse : ∀ s, s = twoMintsText → twoMintsPlatform.parseJson s = some (.object twoMintsJson none) :=
    fun _ hs => if_pos hs
  have htoken : V3Token twoMintsPlatform (cashuA ++ twoMintsBase64) twoMintsEntries := by
    refine ⟨twoMintsBase64, twoMintsJson, twoMintsEntries.map jsonEntry, ⟨[], .inl rfl, (List.nil_append _).symm⟩, ?_, rfl, ?_⟩
    · exact hparse _ (by rw [htext, Utf8.decode_encode])
    · have hentry : ∀ entry : TokenEntry, V3Entry (jsonEntry entry) entry := by
        intro entry
        refine ⟨_, entry.proofs.map jsonProof, rfl, rfl, rfl, ?_⟩
        rw [List.forall₂_map_left_iff, List.forall₂_same]
        exact fun proof _ => isProof_jsonProof proof
      rw [List.forall₂_map_left_iff, List.forall₂_same]
      exact fun entry _ => hentry entry
  refine ⟨htoken, ?_⟩
  obtain ⟨payload, hdecode, hcarries⟩ := decode_v3 htoken
  rw [losesNothing_iff hdecode hcarries]
  intro hperm
  exact absurd hperm.length_eq (by decide)

/-! ## A token of version 4 -/

def oneProof : Proof := { amount := .integer 1, secret := "s".toList, C := "02".toList }

def v4ProofFields : List (Text × ResultValue) :=
  [("a".toList, .number (.integer 1)), ("s".toList, .text "s".toList), ("c".toList, .bytes [2])]

def v4GroupFields : List (Text × ResultValue) := [("i".toList, .bytes [0]), ("p".toList, .array [.object v4ProofFields none])]

def v4TokenFields : List (Text × ResultValue) :=
  [("m".toList, .text "a".toList), ("u".toList, .text "sat".toList), ("t".toList, .array [.object v4GroupFields none])]

def v4ProofBytes : List UInt8 := [0x61, 0x61, 0x01, 0x61, 0x73, 0x61, 0x73, 0x61, 0x63, 0x41, 0x02]

def v4GroupBytes : List UInt8 := [0x61, 0x69, 0x41, 0x00, 0x61, 0x70, 0x81, 0xa3] ++ v4ProofBytes

def v4TokenBytes : List UInt8 :=
  [0xa3, 0x61, 0x6d, 0x61, 0x61, 0x61, 0x75, 0x63, 0x73, 0x61, 0x74, 0x61, 0x74, 0x81, 0xa2] ++ v4GroupBytes

theorem encodes_v4Proof : EncodesAll (flatten v4ProofFields) v4ProofBytes :=
  .text _ 1 [] _ _ (.direct 1 (by decide)) <| .unsigned 1 1 [] _ _ (by decide) (.direct 1 (by decide)) <|
    .text _ 1 [] _ _ (.direct 1 (by decide)) <| .text _ 1 [] _ _ (.direct 1 (by decide)) <|
    .text _ 1 [] _ _ (.direct 1 (by decide)) <| .byteString [2] 1 [] _ _ (.direct 1 (by decide)) .nil

theorem encodes_v4Group : EncodesAll (flatten v4GroupFields) v4GroupBytes := by
  have hproofs : EncodesAll [.object v4ProofFields none] (0xa3 :: v4ProofBytes) :=
    .map v4ProofFields 3 [] v4ProofBytes [] [] (by decide +kernel) (.direct 3 (by decide)) encodes_v4Proof .nil
  exact .text _ 1 [] _ _ (.direct 1 (by decide)) <| .byteString [0] 1 [] _ _ (.direct 1 (by decide)) <|
    .text _ 1 [] _ _ (.direct 1 (by decide)) <|
    .array _ 1 [] (0xa3 :: v4ProofBytes) [] [] (.direct 1 (by decide)) hproofs .nil

theorem encodes_v4Token : Encodes (.object v4TokenFields none) v4TokenBytes := by
  have hgroups : EncodesAll [.object v4GroupFields none] (0xa2 :: v4GroupBytes) :=
    .map v4GroupFields 2 [] v4GroupBytes [] [] (by decide +kernel) (.direct 2 (by decide)) encodes_v4Group .nil
  have hfields : EncodesAll (flatten v4TokenFields) (v4TokenBytes.drop 1) :=
    .text _ 1 [] _ _ (.direct 1 (by decide)) <| .text _ 1 [] _ _ (.direct 1 (by decide)) <|
      .text _ 1 [] _ _ (.direct 1 (by decide)) <| .text _ 3 [] _ _ (.direct 3 (by decide)) <|
      .text _ 1 [] _ _ (.direct 1 (by decide)) <|
      .array _ 1 [] (0xa2 :: v4GroupBytes) [] [] (.direct 1 (by decide)) hgroups .nil
  exact .map v4TokenFields 3 [] (v4TokenBytes.drop 1) [] [] (by decide +kernel) (.direct 3 (by decide)) hfields .nil

def v4Base64 : Text := "o2FtYWFhdWNzYXRhdIGiYWlBAGFwgaNhYQFhc2FzYWNBAg".toList

/-- What the libraries make of this token. -/
def v4Platform : Platform :=
  { twoMintsPlatform with
    fromBase64 := fun _ => {
      buffer := v4TokenBytes
      byteOffset := 0
      byteLength := v4TokenBytes.length
      fits := by omega
      safe := by decide } }

theorem no_proof_lost_iff_demo :
    V4Token v4Platform (cashuB ++ v4Base64) "a".toList [[oneProof]] ∧
      LosesNothing v4Platform (cashuB ++ v4Base64) [("a".toList, oneProof)] := by
  have hbytes : ∀ body, (bufferFromBase64Url v4Platform body).bytes = v4TokenBytes := fun _ => bytes_whole _ _ _
  have hordinary : ordinaryKeys v4ProofFields ∧ ordinaryKeys v4GroupFields ∧ ordinaryKeys v4TokenFields := by
    unfold ordinaryKeys
    decide +kernel
  obtain ⟨hproofKeys, hgroupKeys, htokenKeys⟩ := hordinary
  have hproof : V4Proof (.object v4ProofFields none) oneProof := by
    refine ⟨_, [2], rfl, hproofKeys, rfl, rfl, rfl, rfl, ?_, ?_⟩
    · exact fun d h => absurd h (Option.some_ne_none d).symm
    · exact fun w h => absurd h (Option.some_ne_none w).symm
  have hgroup : V4Group (.object v4GroupFields none) [oneProof] :=
    ⟨_, [0], _, rfl, hgroupKeys, rfl, rfl, .cons hproof .nil⟩
  have hvalue : V4Value (.object v4TokenFields none) "a".toList [[oneProof]] :=
    ⟨_, "sat".toList, _, rfl, htokenKeys, rfl, rfl, fun d h => absurd h (Option.some_ne_none d).symm, rfl, .cons hgroup .nil⟩
  have htoken : V4Token v4Platform (cashuB ++ v4Base64) "a".toList [[oneProof]] :=
    ⟨_, _, ⟨[], .inl rfl, rfl⟩, by rw [hbytes]; exact encodes_v4Token, hvalue⟩
  have hplain : ∀ p ∈ proofsOf (groupEntries "a".toList [[oneProof]]), plainText p.1 = true ∧ plainText p.2.secret = true := by
    intro p hp
    obtain rfl : p = ("a".toList, oneProof) := List.mem_singleton.mp hp
    decide +kernel
  exact ⟨htoken, ((no_proof_lost_iff v4Platform _).2 _ _ htoken).mpr hplain⟩

end Cashu
