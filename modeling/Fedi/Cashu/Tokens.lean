import Fedi.Cbor.Encodings

/-!
# Cashu tokens (`utils/cashu.ts`)

`decodeCashuTokens` reads a token of version 3, which is JSON, or of version 4, which is CBOR, and gives one mint and
lists of proofs.  The values that it reads are values of the language, with any properties.
-/

namespace Cashu

open Cbor

/-! ## The language and its libraries -/

inductive CashuError where
  | invalidCashuToken
  | v1NotSupported
  | noValidProofs
  | noFederationId
  | typeError
  | jsonSyntax
  | cbor (e : DecodeError)
  | request
deriving DecidableEq

/-- `JSON.parse`, `Buffer.from(str, 'base64')`, and the operators of the language on values of any type. -/
structure Platform where
  parseJson : Text → Option ResultValue
  fromBase64 : Text → View
  numberToString : JsNumber → Text
  plus : ResultValue → ResultValue → ResultValue
  minus : ResultValue → ResultValue → ResultValue
  times : ResultValue → ResultValue → ResultValue
  greater : ResultValue → ResultValue → Bool
  truthy : ResultValue → Bool

/-- `str.replace(pattern, replacement)`, for a pattern that is a string. -/
def replace (pattern replacement : Text) : Text → Text
  | [] => if pattern = [] then replacement else []
  | c :: str =>
    if pattern.isPrefixOf (c :: str) then replacement ++ (c :: str).drop pattern.length
    else c :: replace pattern replacement str

/-- `key in value`, with what stands there, for keys that the language's own prototypes do not have. -/
def inherited (key : Text) : Option ResultValue → Option ResultValue
  | some (.object entries proto) =>
    match entries.lookup key with
    | some value => some value
    | none => inherited key proto
  | _ => none

def utf16Length (s : Text) : ℕ := (s.map fun c => if c.toNat < 0x10000 then 1 else 2).sum

/-- `value[key]`. -/
def getProperty (value : ResultValue) (key : Text) : Except CashuError ResultValue :=
  match value with
  | .undefined | .null => .error .typeError
  | .array items =>
    if key = "length".toList then .ok (.number (.integer items.length))
    else if key = "0".toList then .ok (items.head?.getD .undefined)
    else .ok .undefined
  | .text s =>
    if key = "length".toList then .ok (.number (.integer (utf16Length s)))
    else if key = "0".toList then .ok ((s.head?.map fun c => .text [c]).getD .undefined)
    else .ok .undefined
  | value => .ok ((inherited key (some value)).getD .undefined)

/-- `key in value`, which takes no primitive value. -/
def hasProperty (value : ResultValue) (key : Text) : Except CashuError Bool :=
  match value with
  | .array _ | .bytes _ => .ok false
  | .object _ _ => .ok (inherited key (some value)).isSome
  | _ => .error .typeError

def hexDigit (n : ℕ) : Char := if n < 10 then Char.ofNat (48 + n) else Char.ofNat (87 + n)

/-- `Buffer.from(bytes).toString('hex')`. -/
def toHex (bytes : List UInt8) : Text := bytes.flatMap fun b => [hexDigit (b.toNat / 16), hexDigit (b.toNat % 16)]

/-! ## Decoding -/

structure PayloadToken where
  proofs : ResultValue

structure Payload where
  token : List PayloadToken
  mint : ResultValue

def uriPrefixes : List Text := ["web+cashu://".toList, "cashu://".toList, "cashu:".toList]

def cashuA : Text := "cashuA".toList
def cashuB : Text := "cashuB".toList

def validateCashuTokens (raw : Text) : Except CashuError Text :=
  let token := uriPrefixes.foldl (fun token uri => if uri.isPrefixOf token then token.drop uri.length else token) raw
  if !cashuA.isPrefixOf token && !cashuB.isPrefixOf token then .error .invalidCashuToken else .ok token

section

variable (platform : Platform)

/-- Only the first `-` and the first `_` are replaced; what reads base 64 takes both alphabets. -/
def bufferFromBase64Url (str : Text) : View :=
  platform.fromBase64 (replace "_".toList "/".toList (replace "-".toList "+".toList str))

/-- `token[0].mint` and `token[0].proofs`. -/
def firstToken (token : ResultValue) : Except CashuError Payload := do
  let mint ← getProperty (← getProperty token "0".toList) "mint".toList
  let proofs ← getProperty (← getProperty token "0".toList) "proofs".toList
  .ok { mint := mint, token := [{ proofs := proofs }] }

def isArray : ResultValue → Bool
  | .array _ => true
  | _ => false

def decodeCashuTokenLegacy (token : Text) : Except CashuError Payload := do
  let rawToken := replace cashuA [] token
  match platform.parseJson (Utf8.decode (bufferFromBase64Url platform rawToken).bytes) with
  | none => .error .jsonSyntax
  | some parsed =>
    -- check if v3
    if (← hasProperty parsed "token".toList) && isArray (← getProperty parsed "token".toList) then
      firstToken (← getProperty parsed "token".toList)
    -- a v2 token has no array `token` to read from
    else if ← (do
        if !(← hasProperty parsed "proofs".toList) then return false
        if !(← hasProperty parsed "mints".toList) then return false
        let mints ← getProperty parsed "mints".toList
        if !platform.greater (← getProperty mints "length".toList) (.number (.integer 0)) then return false
        return platform.truthy (← getProperty (← getProperty mints "0".toList) "url".toList)) then
      firstToken (← getProperty parsed "token".toList)
    else if isArray parsed then .error .v1NotSupported
    else .error .noValidProofs

def isValidResultType (value : ResultValue) : Bool := value.isObject

def isText : ResultValue → Bool
  | .text _ => true
  | _ => false

def isNumber : ResultValue → Bool
  | .number _ => true
  | _ => false

def isBytes : ResultValue → Bool
  | .bytes _ => true
  | _ => false

def isUndefined : ResultValue → Bool
  | .undefined => true
  | _ => false

@[simp] theorem isValidResultType_object (entries : List (Text × ResultValue)) (proto : Option ResultValue) :
    isValidResultType (.object entries proto) = true := rfl

@[simp] theorem isText_text (s : Text) : isText (.text s) = true := rfl

@[simp] theorem isNumber_number (n : JsNumber) : isNumber (.number n) = true := rfl

@[simp] theorem isBytes_bytes (bytes : List UInt8) : isBytes (.bytes bytes) = true := rfl

/-- A loop that returns `false` at the first item that fails. -/
def everyItem (check : ResultValue → Except CashuError Bool) : List ResultValue → Except CashuError Bool
  | [] => .ok true
  | item :: items => do
    if ← check item then everyItem check items else .ok false

def isValidProof (proof : ResultValue) : Except CashuError Bool := do
  if !isValidResultType proof then return false
  if !isNumber (← getProperty proof "a".toList) then return false
  if !isText (← getProperty proof "s".toList) then return false
  if !isBytes (← getProperty proof "c".toList) then return false
  let d ← getProperty proof "d".toList
  if !isUndefined d && !d.isObject then return false
  let w ← getProperty proof "w".toList
  if !isUndefined w && !isText w then return false
  return true

def isValidGroup (token : ResultValue) : Except CashuError Bool := do
  if !isValidResultType token then return false
  if !(← hasProperty token "i".toList) then return false
  if !(← hasProperty token "p".toList) then return false
  if !isBytes (← getProperty token "i".toList) then return false
  match ← getProperty token "p".toList with
  | .array proofs => everyItem isValidProof proofs
  | _ => return false

def isValidCashuV4Token (decodedToken : ResultValue) : Except CashuError Bool := do
  if !isValidResultType decodedToken then return false
  if !isText (← getProperty decodedToken "m".toList) then return false
  if !isText (← getProperty decodedToken "u".toList) then return false
  let d ← getProperty decodedToken "d".toList
  if !isText d && !isUndefined d then return false
  match ← getProperty decodedToken "t".toList with
  | .array tokens => everyItem isValidGroup tokens
  | _ => return false

def bufferToHex : ResultValue → Except CashuError ResultValue
  | .bytes bytes => .ok (.text (toHex bytes))
  | _ => .error .typeError

def itemsOf : ResultValue → Except CashuError (List ResultValue)
  | .array items => .ok items
  | _ => .error .typeError

def parseCashuV4Proof (i proof : ResultValue) : Except CashuError ResultValue := do
  let id ← bufferToHex i
  let amount ← getProperty proof "a".toList
  let secret ← getProperty proof "s".toList
  let c ← bufferToHex (← getProperty proof "c".toList)
  return .object [("id".toList, id), ("amount".toList, amount), ("secret".toList, secret), ("C".toList, c)] none

def parseSingleCashuV4Token (token : ResultValue) : Except CashuError PayloadToken := do
  let i ← getProperty token "i".toList
  let proofs ← (← itemsOf (← getProperty token "p".toList)).mapM (parseCashuV4Proof i)
  return { proofs := .array proofs }

def coerceCashuV4TokensArray (tokens : List ResultValue) : Except CashuError (List PayloadToken) :=
  tokens.mapM parseSingleCashuV4Token

def decodeCashuTokenV4 (token : Text) : Except CashuError Payload := do
  let rawToken := replace cashuB [] token
  match decodeCBOR platform.numberToString (bufferFromBase64Url platform rawToken) with
  | .error e => .error (.cbor e)
  | .ok parsedToken =>
    if !isValidResultType parsedToken then .error .invalidCashuToken
    else if !(← isValidCashuV4Token parsedToken) then .error .invalidCashuToken
    else
      let mint ← getProperty parsedToken "m".toList
      let token ← coerceCashuV4TokensArray (← itemsOf (← getProperty parsedToken "t".toList))
      return { mint := mint, token := token }

def decodeCashuTokens (raw : Text) : Except CashuError Payload := do
  let token ← validateCashuTokens raw
  if cashuA.isPrefixOf token then decodeCashuTokenLegacy platform token
  else decodeCashuTokenV4 platform token

end

end Cashu
