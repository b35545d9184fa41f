import Fedi.Lib.PercentCoding
import Mathlib.Data.List.Chain
import Mathlib.Data.List.Infix
import Mathlib.Data.List.TakeWhile

/-!
# Chat links (`ui/common/utils/matrix.ts`, `ui/native/utils/linking.ts`)

A user or a room is shared as a short `fedi:` URI or as a deep `fedi://` link.  The short one is read by a regular
expression, the deep one by the parser of internal links.

    a user id comes back from its short URI iff it has no line terminator                       (decode_user_iff)
    a room id comes back iff, besides, it has no "::"                                           (decode_room_iff)
    the deep link leads to the screen with the id iff the id has no '/'                         (deep_link_iff)
-/

namespace ChatLinks

open PercentCoding

abbrev Text := List Char

/-! ## Identifiers -/

/-- What `.` does not match. -/
def isLineTerminator (c : Char) : Bool :=
  c.toNat == 0xa || c.toNat == 0xd || c.toNat == 0x2028 || c.toNat == 0x2029

/-- `^.+$`. -/
def someLine (s : Text) : Bool := !s.isEmpty && s.all fun c => !isLineTerminator c

/-- `^<sigil>[^:]+:.+$`. -/
def isValidMatrixId (sigil : Char) : Text → Bool
  | [] => false
  | c :: rest =>
    c == sigil && !(rest.takeWhile (· != ':')).isEmpty && !(rest.dropWhile (· != ':')).isEmpty &&
      someLine ((rest.dropWhile (· != ':')).drop 1)

def isValidMatrixUserId (id : Text) : Bool := isValidMatrixId '@' id

def isValidMatrixRoomId (id : Text) : Bool := isValidMatrixId '!' id

/-! ## URIs -/

def encodeFediMatrixUserUri (id : Text) (deep : Bool) : Text :=
  if deep then "fedi://user/".toList ++ encodeURIComponent id else "fedi:user:".toList ++ id

def encodeFediMatrixRoomUri (id : Text) (deep : Bool) : Text :=
  if deep then "fedi://room/".toList ++ encodeURIComponent id else "fedi:room:".toList ++ (id ++ ":::".toList)

/-- `uri.replace(/https?:\/\//g, '')`. -/
def withoutHttp : Text → Text
  | 'h' :: 't' :: 't' :: 'p' :: 's' :: ':' :: '/' :: '/' :: rest => withoutHttp rest
  | 'h' :: 't' :: 't' :: 'p' :: ':' :: '/' :: '/' :: rest => withoutHttp rest
  | c :: rest => c :: withoutHttp rest
  | [] => []

/-- A literal, in either case, at the start. -/
def literal : Text → Text → Option Text
  | [], s => some s
  | _ :: _, [] => none
  | l :: rest, c :: s => if c.toLower == l.toLower then literal rest s else none

/-- `^fedi(?::|:\/\/)<kind>[:/]`, and what follows it. -/
def afterKind (kind uri : Text) : Option Text := do
  let scheme ← literal "fedi".toList uri
  let path ← (literal ":".toList scheme >>= literal kind) <|> (literal "://".toList scheme >>= literal kind)
  match path with
  | ':' :: id => some id
  | '/' :: id => some id
  | _ => none

/-- `(.+?)(?:::|$)`. -/
def upToColons : Text → Option Text
  | [] => none
  | c :: rest =>
    if isLineTerminator c then none
    else if rest.isEmpty || "::".toList.isPrefixOf rest then some [c]
    else (upToColons rest).map (c :: ·)

def decodeFediMatrixRoomUri (uri : Text) : Except String Text :=
  match afterKind "room".toList (withoutHttp uri) >>= upToColons with
  | none => .error "feature.chat.invalid-room"
  | some decodedId => if isValidMatrixRoomId decodedId then .ok decodedId else .error "feature.chat.invalid-room"

def decodeFediMatrixUserUri (uri : Text) : Except String Text :=
  match (afterKind "user".toList (withoutHttp uri)).filter someLine with
  | none => .error "feature.chat.invalid-member"
  | some id => if isValidMatrixUserId id then .ok id else .error "feature.chat.invalid-member"

/-! ## Internal links -/

inductive Screen where
  | wallet | home | chat | mods
  | chatUserConversation | roomLink | fediModBrowser | claimEcash | joinFederation | shareLogs
deriving DecidableEq

abbrev Params := List (String × Text)

structure InternalLinkTarget where
  tab : Bool
  screen : Screen
  params : Option Params
deriving DecidableEq

def supportedPrefixes : List Text := [
  "fedi://".toList, "fedi:".toList, "lightning:".toList, "lnurl:".toList, "bitcoin:".toList, "lnurlw://".toList,
  "lnurlp://".toList, "keyauth://".toList]

/-- The routes `<base>/:<param>`. -/
def rootScreenPaths : List (Screen × Text × String) := [
  (.roomLink, "room".toList, "roomId"), (.chatUserConversation, "user".toList, "userId"),
  (.shareLogs, "share-logs".toList, "ticketNumber"), (.claimEcash, "ecash".toList, "id"),
  (.joinFederation, "join".toList, "invite"), (.fediModBrowser, "browser".toList, "url")]

def stripSupportedPrefix (path : Text) : Text :=
  supportedPrefixes.foldl (fun acc supported => if supported.isPrefixOf acc then acc.drop supported.length else acc) path

def decodePathParam (value : Text) : Text := (decodeURIComponent value).getD value

def isFediInternalLink (url : Text) : Bool := (literal "fedi:".toList url).isSome

def normalizeBrowserUrl (raw : Text) : Text :=
  if "http://".toList.isPrefixOf raw || "https://".toList.isPrefixOf raw then raw else "https://".toList ++ raw

def normalizeCommunityInviteCode (code : Text) : Text :=
  if (literal "fedi:".toList code).isSome then code
  else if (literal "community".toList code).isSome then "fedi:".toList ++ code
  else code

/-- The value that was set last. -/
def Params.get (params : Params) (key : String) : Option Text := params.reverse.lookup key

/-- `params?.[key]`, or the id, if it is not empty. -/
def Params.idOr (params : Params) (key : String) : Option Text :=
  (params.get key <|> params.get "id").filter (!·.isEmpty)

def Params.some? (params : Params) (key : String) : Option Text := (params.get key).filter (!·.isEmpty)

def root (screen : Screen) (params : Option Params) : InternalLinkTarget := ⟨false, screen, params⟩

def tab (screen : Screen) : InternalLinkTarget := ⟨true, screen, none⟩

/-- The mappers by screen; what a mapper makes of the parameters. -/
def screenMap : List (Text × (Params → Option InternalLinkTarget)) := [
  ("wallet".toList, fun _ => tab .wallet),
  ("federations".toList, fun _ => tab .wallet),
  ("home".toList, fun _ => tab .home),
  ("chat".toList, fun _ => tab .chat),
  ("miniapps".toList, fun _ => tab .mods),
  ("mods".toList, fun _ => tab .mods),
  ("user".toList, fun params => (params.idOr "userId").map fun userId =>
    root .chatUserConversation (some [("userId", userId)])),
  ("room".toList, fun params => (params.idOr "roomId").map fun roomId => root .roomLink (some [("roomId", roomId)])),
  ("browser".toList, fun params =>
    match params.idOr "url" with
    | some raw => root .fediModBrowser (some [("url", normalizeBrowserUrl raw)])
    | none => root .fediModBrowser none),
  ("ecash".toList, fun _ => root .claimEcash none),
  ("join".toList, fun params =>
    match params.idOr "invite" with
    | some invite => root .joinFederation (some [("invite", normalizeCommunityInviteCode invite)])
    | none => root .joinFederation none),
  ("share-logs".toList, fun _ => root .shareLogs none),
  ("join-then-ecash".toList, fun params => do
    let invite ← params.some? "invite"
    let ecash ← params.some? "ecash"
    root .joinFederation (some [("invite", normalizeCommunityInviteCode invite), ("afterJoinEcash", ecash)])),
  ("join-then-browse".toList, fun params => do
    let invite ← params.some? "invite"
    let raw ← params.some? "url"
    root .joinFederation
      (some [("invite", normalizeCommunityInviteCode invite), ("afterJoinUrl", normalizeBrowserUrl raw)])),
  ("join-then-join".toList, fun params => do
    let community ← params.some? "community"
    let federation ← params.some? "federation"
    root .joinFederation
      (some [("invite", normalizeCommunityInviteCode community), ("afterJoinFederation", federation)]))]

/-- One parameter of a target, rewritten if it is there and not empty. -/
def normalizeParam (key : String) (normalize : Text → Text) (target : InternalLinkTarget) : InternalLinkTarget :=
  match target.params >>= (·.some? key) with
  | some value =>
    let others := (target.params.getD []).filter fun param => param.1 != key
    { target with params := some (others ++ [(key, normalize value)]) }
  | none => target

def normalizeTarget (target : InternalLinkTarget) : InternalLinkTarget :=
  if target.screen = .fediModBrowser then normalizeParam "url" normalizeBrowserUrl target
  else if target.screen = .joinFederation then normalizeParam "invite" normalizeCommunityInviteCode target
  else target

def getBrowserPathTarget (path : Text) : Option InternalLinkTarget :=
  if "browser/".toList.isPrefixOf path then
    let rawUrl := decodePathParam (path.drop "browser/".length)
    if rawUrl.isEmpty then none else some (normalizeTarget (root .fediModBrowser (some [("url", rawUrl)])))
  else none

/-- The first two parts of a path that is split at its question marks. -/
def rawScreenOf (path : Text) : Text := path.takeWhile (· != '?')

def queryStringOf (path : Text) : Text := ((path.dropWhile (· != '?')).drop 1).takeWhile (· != '?')

/-- The names that every object has. -/
def inherited : List Text := [
  "__defineGetter__".toList, "__defineSetter__".toList, "__lookupGetter__".toList, "__lookupSetter__".toList,
  "__proto__".toList, "constructor".toList, "hasOwnProperty".toList, "isPrototypeOf".toList,
  "propertyIsEnumerable".toList, "toLocaleString".toList, "toString".toList, "valueOf".toList]

/-- `screenName in screenMap`. -/
def inScreenMap (screenName : Text) : Bool := (screenMap.lookup screenName).isSome || inherited.contains screenName

def isKnownInternalPath (path : Text) : Bool :=
  let rawScreen := rawScreenOf (stripSupportedPrefix path)
  if rawScreen.isEmpty then false
  else if "browser/".toList.isPrefixOf rawScreen then true
  else inScreenMap (rawScreen.takeWhile (· != '/'))

/-- What one of the routes makes of a path. -/
def routeTarget (path : Text) : Screen × Text × String → Option InternalLinkTarget
  | (screen, patternBase, patternParam) =>
    if (patternBase ++ ['/']).isPrefixOf path then
      let value := decodePathParam (path.drop (patternBase.length + 1))
      if value.isEmpty || value.contains '/' then none
      else some (normalizeTarget (root screen (some [(patternParam, value)])))
    else none

def getConfigPathTarget (path : Text) : Option InternalLinkTarget := rootScreenPaths.findSome? (routeTarget path)

/-- `searchParams` are the entries of `URLSearchParams`.  A screen that is itself an inherited name has a mapper in the
source, which is no screen's and may throw; here it has none. -/
def getInternalLinkTarget (searchParams : Text → Params) (path : Text) : Option InternalLinkTarget :=
  let normalizedPath := stripSupportedPrefix path
  let rawScreen := rawScreenOf normalizedPath
  let queryString := queryStringOf normalizedPath
  if rawScreen.isEmpty then none
  else
    let queryParams := if queryString.isEmpty then [] else searchParams queryString
    let mapped := (screenMap.lookup rawScreen).bind fun mapper =>
      (mapper queryParams).map fun target =>
        normalizeTarget { target with params := target.params <|> some queryParams }
    let fallback := if isFediInternalLink path && !isKnownInternalPath path then some ⟨true, .wallet, some []⟩ else none
    getBrowserPathTarget normalizedPath <|> mapped <|> (getConfigPathTarget rawScreen).map normalizeTarget <|> fallback

/-! ## The grammar of identifiers -/

def isDnsChar (c : Char) : Bool := c.isAlphanum || c == '-' || c == '.'

def isIpv6Char (c : Char) : Bool :=
  c.isDigit || (0x41 ≤ c.toNat && c.toNat ≤ 0x46) || (0x61 ≤ c.toNat && c.toNat ≤ 0x66) || c == ':' || c == '.'

/-- A DNS name or an IPv4 address, or an IPv6 address in brackets. -/
inductive Hostname : Text → Prop
  | dns (name : Text) : 1 ≤ name.length → name.length ≤ 255 → (∀ c ∈ name, isDnsChar c = true) → Hostname name
  | ipv6 (address : Text) : 2 ≤ address.length → address.length ≤ 45 → (∀ c ∈ address, isIpv6Char c = true) →
    Hostname ('[' :: (address ++ [']']))

inductive ServerName : Text → Prop
  | host (hostname : Text) : Hostname hostname → ServerName hostname
  | port (hostname digits : Text) : Hostname hostname → 1 ≤ digits.length → digits.length ≤ 5 →
    (∀ c ∈ digits, c.isDigit = true) → ServerName (hostname ++ ':' :: digits)

/-- A sigil, a localpart of any characters but ':' and NUL, and a server name. -/
inductive MatrixId (sigil : Char) : Text → Prop
  | mk (localpart server : Text) : (∀ c ∈ localpart, c ≠ ':' ∧ c.toNat ≠ 0) → ServerName server →
    MatrixId sigil (sigil :: (localpart ++ ':' :: server))

/-! ## What is promised -/

inductive ChatKind where
  | user
  | room

def ChatKind.sigil : ChatKind → Char
  | .user => '@'
  | .room => '!'

def ChatKind.isValid : ChatKind → Text → Bool
  | .user => isValidMatrixUserId
  | .room => isValidMatrixRoomId

def ChatKind.encode : ChatKind → Text → Bool → Text
  | .user => encodeFediMatrixUserUri
  | .room => encodeFediMatrixRoomUri

def ChatKind.decode : ChatKind → Text → Except String Text
  | .user => decodeFediMatrixUserUri
  | .room => decodeFediMatrixRoomUri

/-- The screen of a user or a room. -/
def ChatKind.target : ChatKind → Text → InternalLinkTarget
  | .user, id => root .chatUserConversation (some [("userId", id)])
  | .room, id => root .roomLink (some [("roomId", id)])

structure RoundTrip (searchParams : Text → Params) (kind : ChatKind) (id : Text) : Prop where
  short : kind.decode (kind.encode id false) = .ok id
  deep : getInternalLinkTarget searchParams (kind.encode id true) = some (kind.target id)

/-- No character of the id is a line terminator. -/
def OneLine (id : Text) : Prop := ∀ c ∈ id, isLineTerminator c = false

/-! ## Identifiers of the grammar -/

variable {id server : Text} {sigil : Char}

/-- What server names consist of. -/
def isServerChar (c : Char) : Bool := isDnsChar c || isIpv6Char c || c == '[' || c == ']'

theorem serverChars_hostname {hostname : Text} (h : Hostname hostname) : ∀ c ∈ hostname, isServerChar c = true := by
  intro c hc
  cases h with
  | dns _ _ _ hname => simp [isServerChar, hname c hc]
  | ipv6 address _ _ haddress =>
    rw [List.mem_cons, List.mem_append, List.mem_singleton] at hc
    rcases hc with rfl | hc | rfl
    · decide
    · simp [isServerChar, haddress c hc]
    · decide

theorem serverChars (h : ServerName server) : ∀ c ∈ server, isServerChar c = true := by
  intro c hc
  cases h with
  | host _ hhost => exact serverChars_hostname hhost c hc
  | port hostname digits hhost _ _ hdigits =>
    rw [List.mem_append, List.mem_cons] at hc
    rcases hc with hc | rfl | hc
    · exact serverChars_hostname hhost c hc
    · decide
    · simp [isServerChar, isIpv6Char, hdigits c hc]

theorem not_slash_of_server (h : ServerName server) : '/' ∉ server := by
  intro hmem
  exact absurd (serverChars h '/' hmem) (by decide)

/-- A server name ends with something else than a colon. -/
theorem server_ends (h : ServerName server) : ∃ last, server.getLast? = some last ∧ last ≠ ':' := by
  cases h with
  | host _ hhost =>
    cases hhost with
    | dns _ hpos _ hname =>
      have hne : server ≠ [] := List.ne_nil_of_length_pos hpos
      refine ⟨_, List.getLast?_eq_some_getLast hne, ?_⟩
      intro heq
      have hdns := hname _ (List.getLast_mem hne)
      rw [heq] at hdns
      exact absurd hdns (by decide)
    | ipv6 address _ _ _ =>
      refine ⟨']', ?_, by decide⟩
      rw [← List.cons_append, List.getLast?_concat]
  | port hostname digits _ hpos _ hdigits =>
    have hne : digits ≠ [] := List.ne_nil_of_length_pos hpos
    refine ⟨digits.getLast hne, ?_, ?_⟩
    · rw [List.getLast?_append_of_ne_nil _ (List.cons_ne_nil ':' digits), List.getLast?_cons,
        List.getLast?_eq_some_getLast hne]
      rfl
    · intro heq
      have hdigit := hdigits _ (List.getLast_mem hne)
      rw [heq] at hdigit
      exact absurd hdigit (by decide)

theorem id_ends (h : MatrixId sigil id) : id.getLast? ≠ some ':' := by
  obtain ⟨localpart, server, _, hserver⟩ := h
  obtain ⟨last, hlast, hne⟩ := server_ends hserver
  have hserverNe : server ≠ [] := by
    rintro rfl
    cases hlast
  rw [← List.cons_append, List.getLast?_append_of_ne_nil _ (List.cons_ne_nil ':' server), List.getLast?_cons,
    hlast]
  intro heq
  exact hne (Option.some.inj heq)

/-! ## Short URIs -/

/-- No slash right after a colon. -/
def NoColonSlash (a b : Char) : Prop := a = ':' → b ≠ '/'

instance : DecidableRel NoColonSlash := fun a b => inferInstanceAs (Decidable (a = ':' → b ≠ '/'))

/-- Nothing that looks like a scheme of the web is removed. -/
theorem withoutHttp_eq_self {s : Text} (h : s.IsChain NoColonSlash) : withoutHttp s = s := by
  fun_induction withoutHttp s with
  | case1 rest ih =>
    simp only [List.isChain_cons_cons] at h
    exact absurd rfl (h.2.2.2.2.2.1 rfl)
  | case2 rest ih =>
    simp only [List.isChain_cons_cons] at h
    exact absurd rfl (h.2.2.2.2.1 rfl)
  | case3 c rest _ _ ih => rw [ih (List.isChain_cons.mp h).2]
  | case4 => rfl

theorem noColonSlash_id (h : MatrixId sigil id) (hsigil : sigil ≠ ':') : id.IsChain NoColonSlash := by
  obtain ⟨localpart, server, hlocal, hserver⟩ := h
  have hfront : (sigil :: localpart).IsChain NoColonSlash := by
    apply List.Pairwise.isChain
    apply List.pairwise_of_forall_mem_list
    intro a ha b _ heq
    rcases List.mem_cons.mp ha with rfl | ha
    · exact absurd heq hsigil
    · exact absurd heq (hlocal a ha).1
  have hslash : ∀ b ∈ server, b ≠ '/' := by
    rintro b hb rfl
    exact not_slash_of_server hserver hb
  have hback : (':' :: server).IsChain NoColonSlash := by
    rw [List.isChain_cons]
    refine ⟨fun b hb _ => hslash b (List.mem_of_mem_head? hb), ?_⟩
    apply List.Pairwise.isChain
    apply List.pairwise_of_forall_mem_list
    intro a _ b hb _
    exact hslash b hb
  rw [← List.cons_append, List.isChain_append]
  refine ⟨hfront, hback, ?_⟩
  intro a _ b hb _
  rw [List.head?_cons, Option.mem_some_iff] at hb
  rw [← hb]
  decide

theorem afterKind_user (id : Text) : afterKind "user".toList ("fedi:user:".toList ++ id) = some id := rfl

theorem afterKind_room (id : Text) : afterKind "room".toList ("fedi:room:".toList ++ id) = some id := rfl

theorem someLine_iff {s : Text} : someLine s = true ↔ s ≠ [] ∧ OneLine s := by
  unfold someLine OneLine
  simp

theorem decode_user_iff (h : MatrixId '@' id) (hvalid : isValidMatrixUserId id = true) :
    decodeFediMatrixUserUri (encodeFediMatrixUserUri id false) = .ok id ↔ OneLine id := by
  have hchain : ("fedi:user:".toList ++ id).IsChain NoColonSlash := by
    rw [List.isChain_append]
    refine ⟨by decide, noColonSlash_id h (by decide), ?_⟩
    obtain ⟨localpart, server, _, _⟩ := h
    intro a _ b hb _
    rw [List.head?_cons, Option.mem_some_iff] at hb
    rw [← hb]
    decide
  have hne : id ≠ [] := by
    obtain ⟨localpart, server, _, _⟩ := h
    exact List.cons_ne_nil _ _
  unfold decodeFediMatrixUserUri encodeFediMatrixUserUri
  rw [if_neg Bool.false_ne_true, withoutHttp_eq_self hchain, afterKind_user]
  by_cases hline : someLine id = true
  · rw [Option.filter_some, if_pos hline]
    dsimp only
    rw [if_pos hvalid]
    exact iff_of_true rfl (someLine_iff.mp hline).2
  · rw [Option.filter_some, if_neg hline]
    apply iff_of_false
    · intro heq
      cases heq
    · intro hone
      exact hline (someLine_iff.mpr ⟨hne, hone⟩)

/-- A non-greedy match stops at the first two colons. -/
theorem upToColons_iff {c : Char} {s : Text} (rest : Text) (hends : (c :: s).getLast? ≠ some ':') :
    upToColons (c :: s ++ ':' :: ':' :: rest) = some (c :: s) ↔ OneLine (c :: s) ∧ ¬ [':', ':'] <:+: s := by
  induction s generalizing c with
  | nil =>
    by_cases hc : isLineTerminator c = true
    · simp [upToColons, OneLine, hc]
    · simp [upToColons, OneLine, hc]
  | cons d s ih =>
    rw [List.getLast?_cons_cons] at hends
    rw [List.cons_append, upToColons]
    by_cases hc : isLineTerminator c = true
    · rw [if_pos hc]
      apply iff_of_false
      · intro heq
        cases heq
      · intro h
        rw [h.1 c List.mem_cons_self] at hc
        cases hc
    · rw [if_neg hc]
      have hempty : (d :: s ++ ':' :: ':' :: rest).isEmpty = false := rfl
      rw [hempty, Bool.false_or]
      by_cases hcolons : "::".toList.isPrefixOf (d :: s ++ ':' :: ':' :: rest) = true
      · -- the match stops here, before the text ends
        rw [if_pos hcolons]
        apply iff_of_false
        · intro heq
          cases heq
        · rintro ⟨-, hnone⟩
          obtain ⟨rfl, hnext⟩ := List.cons_prefix_cons.mp (List.isPrefixOf_iff_prefix.mp hcolons)
          cases s with
          | nil => exact hends rfl
          | cons e s =>
            obtain ⟨rfl, -⟩ := List.cons_prefix_cons.mp hnext
            exact hnone ⟨[], s, rfl⟩
      · rw [if_neg hcolons]
        have hstart : ¬ [':', ':'] <+: d :: s := by
          intro hbegins
          exact hcolons (List.isPrefixOf_iff_prefix.mpr (hbegins.trans (List.prefix_append _ _)))
        have hrest : (upToColons (d :: s ++ ':' :: ':' :: rest)).map (c :: ·) = some (c :: d :: s) ↔
            upToColons (d :: s ++ ':' :: ':' :: rest) = some (d :: s) := by
          cases upToColons (d :: s ++ ':' :: ':' :: rest) with
          | none => simp
          | some found => simp
        have hone : OneLine (c :: d :: s) ↔ OneLine (d :: s) := by
          unfold OneLine
          rw [List.forall_mem_cons]
          simp only [hc, true_and]
        rw [hrest, ih hends, hone, List.infix_cons_iff]
        simp only [hstart, false_or]

theorem decode_room_iff (h : MatrixId '!' id) (hvalid : isValidMatrixRoomId id = true) :
    decodeFediMatrixRoomUri (encodeFediMatrixRoomUri id false) = .ok id ↔ OneLine id ∧ ¬ [':', ':'] <:+: id := by
  have hchain : ("fedi:room:".toList ++ (id ++ ":::".toList)).IsChain NoColonSlash := by
    rw [List.isChain_append, List.isChain_append]
    refine ⟨by decide, ⟨noColonSlash_id h (by decide), by decide, ?_⟩, ?_⟩
    · intro a _ b hb _
      rw [← Option.mem_some_iff.mp hb]
      decide
    · obtain ⟨localpart, server, _, _⟩ := h
      intro a _ b hb _
      rw [List.cons_append, List.head?_cons, Option.mem_some_iff] at hb
      rw [← hb]
      decide
  have hread : upToColons (id ++ ":::".toList) = some id ↔ OneLine id ∧ ¬ [':', ':'] <:+: id := by
    have hends := id_ends h
    obtain ⟨localpart, server, _, _⟩ := h
    have hfirst : ¬ [':', ':'] <+: '!' :: (localpart ++ ':' :: server) := by
      intro hbegins
      exact absurd (List.cons_prefix_cons.mp hbegins).1 (by decide)
    rw [List.infix_cons_iff, or_iff_right hfirst]
    exact upToColons_iff [':'] hends
  unfold decodeFediMatrixRoomUri encodeFediMatrixRoomUri
  rw [if_neg Bool.false_ne_true, withoutHttp_eq_self hchain, afterKind_room, Option.bind_eq_bind, Option.bind_some,
    ← hread]
  cases upToColons (id ++ ":::".toList) with
  | none => simp
  | some found =>
    dsimp only
    rw [Option.some.injEq]
    constructor
    · intro hdecoded
      split_ifs at hdecoded
      cases hdecoded
      rfl
    · rintro rfl
      rw [if_pos hvalid]

/-! ## Deep links -/

theorem not_question_mark (id : Text) : '?' ∉ encodeURIComponent id := by
  intro hmem
  rcases unreserved_of_mem_encodeURIComponent hmem with h | h
  · exact absurd h (by decide)
  · exact absurd h (by decide)

theorem decodePathParam_encodeURIComponent (id : Text) : decodePathParam (encodeURIComponent id) = id := by
  unfold decodePathParam
  rw [decodeURIComponent_encodeURIComponent, Option.getD_some]

theorem rawScreenOf_eq_self {path : Text} (h : '?' ∉ path) : rawScreenOf path = path := by
  unfold rawScreenOf
  rw [List.takeWhile_eq_self_iff]
  intro c hc
  rw [bne_iff_ne]
  rintro rfl
  exact h hc

/-- What the route of a screen makes of a link to it. -/
def linked (screen : Screen) (patternParam : String) (value : Text) : Option InternalLinkTarget :=
  if value.isEmpty || value.contains '/' then none else some (root screen (some [(patternParam, value)]))

theorem config_user (rest : Text) :
    getConfigPathTarget ("user/".toList ++ rest) = linked .chatUserConversation "userId" (decodePathParam rest) := by
  have hroom : routeTarget ("user/".toList ++ rest) (.roomLink, "room".toList, "roomId") = none := rfl
  have huser : routeTarget ("user/".toList ++ rest) (.chatUserConversation, "user".toList, "userId") =
      linked .chatUserConversation "userId" (decodePathParam rest) := rfl
  unfold getConfigPathTarget rootScreenPaths
  rw [List.findSome?_cons, hroom, List.findSome?_cons, huser]
  cases linked .chatUserConversation "userId" (decodePathParam rest) with
  | none => rfl
  | some target => rfl

theorem config_room (rest : Text) :
    getConfigPathTarget ("room/".toList ++ rest) = linked .roomLink "roomId" (decodePathParam rest) := by
  have hroom : routeTarget ("room/".toList ++ rest) (.roomLink, "room".toList, "roomId") =
      linked .roomLink "roomId" (decodePathParam rest) := rfl
  unfold getConfigPathTarget rootScreenPaths
  rw [List.findSome?_cons, hroom]
  cases linked .roomLink "roomId" (decodePathParam rest) with
  | none => rfl
  | some target => rfl

/-- The parser of a path that is none of the screens and has no question mark: only the routes are left. -/
theorem getInternalLinkTarget_eq {path normalized : Text} (searchParams : Text → Params)
    (hstrip : stripSupportedPrefix path = normalized) (hmark : '?' ∉ normalized) (hempty : normalized.isEmpty = false)
    (hbrowser : getBrowserPathTarget normalized = none) (hmap : screenMap.lookup normalized = none)
    (hknown : isKnownInternalPath path = true) :
    getInternalLinkTarget searchParams path = (getConfigPathTarget normalized).map normalizeTarget := by
  unfold getInternalLinkTarget
  rw [hstrip, hknown]
  dsimp only
  rw [rawScreenOf_eq_self hmark, hempty, hbrowser, hmap]
  cases getConfigPathTarget normalized with
  | none => simp
  | some target => simp

theorem internal_user (searchParams : Text → Params) (id : Text) :
    getInternalLinkTarget searchParams (encodeFediMatrixUserUri id true) = linked .chatUserConversation "userId" id := by
  have hmark : '?' ∉ "user/".toList ++ encodeURIComponent id := by
    rw [List.mem_append, not_or]
    exact ⟨by decide, not_question_mark id⟩
  have hstrip : stripSupportedPrefix (encodeFediMatrixUserUri id true) = "user/".toList ++ encodeURIComponent id := rfl
  have hknown : isKnownInternalPath (encodeFediMatrixUserUri id true) = true := by
    unfold isKnownInternalPath
    rw [hstrip, rawScreenOf_eq_self hmark]
    rfl
  rw [getInternalLinkTarget_eq searchParams hstrip hmark rfl rfl rfl hknown, config_user,
    decodePathParam_encodeURIComponent]
  unfold linked
  split_ifs
  · rfl
  · rfl

theorem internal_room (searchParams : Text → Params) (id : Text) :
    getInternalLinkTarget searchParams (encodeFediMatrixRoomUri id true) = linked .roomLink "roomId" id := by
  have hmark : '?' ∉ "room/".toList ++ encodeURIComponent id := by
    rw [List.mem_append, not_or]
    exact ⟨by decide, not_question_mark id⟩
  have hstrip : stripSupportedPrefix (encodeFediMatrixRoomUri id true) = "room/".toList ++ encodeURIComponent id := rfl
  have hknown : isKnownInternalPath (encodeFediMatrixRoomUri id true) = true := by
    unfold isKnownInternalPath
    rw [hstrip, rawScreenOf_eq_self hmark]
    rfl
  rw [getInternalLinkTarget_eq searchParams hstrip hmark rfl rfl rfl hknown, config_room,
    decodePathParam_encodeURIComponent]
  unfold linked
  split_ifs
  · rfl
  · rfl

theorem linked_eq_some_iff (screen : Screen) (patternParam : String) (hne : id ≠ []) :
    linked screen patternParam id = some (root screen (some [(patternParam, id)])) ↔ '/' ∉ id := by
  unfold linked
  simp [hne]

theorem deep_link_iff (searchParams : Text → Params) (kind : ChatKind) (hne : id ≠ []) :
    getInternalLinkTarget searchParams (kind.encode id true) = some (kind.target id) ↔ '/' ∉ id := by
  cases kind with
  | user =>
    show getInternalLinkTarget searchParams (encodeFediMatrixUserUri id true) = _ ↔ _
    rw [internal_user]
    exact linked_eq_some_iff _ _ hne
  | room =>
    show getInternalLinkTarget searchParams (encodeFediMatrixRoomUri id true) = _ ↔ _
    rw [internal_room]
    exact linked_eq_some_iff _ _ hne

/-! ## Main result -/

theorem short_link_iff (kind : ChatKind) (h : MatrixId kind.sigil id) (hvalid : kind.isValid id = true) :
    kind.decode (kind.encode id false) = .ok id ↔ OneLine id ∧ (kind = .room → ¬ [':', ':'] <:+: id) := by
  cases kind with
  | user =>
    simp only [reduceCtorEq, false_implies, and_true]
    exact decode_user_iff h hvalid
  | room =>
    simp only [true_implies]
    exact decode_room_iff h hvalid

/-- Both links lead back to the id iff it has no slash and no line terminator, and a room id no two colons in a row. -/
theorem chat_link_iff (searchParams : Text → Params) (kind : ChatKind) (id : Text) (h : MatrixId kind.sigil id)
    (hvalid : kind.isValid id = true) : RoundTrip searchParams kind id ↔
      OneLine id ∧ '/' ∉ id ∧ (kind = .room → ¬ [':', ':'] <:+: id) := by
  have hne : id ≠ [] := by
    obtain ⟨localpart, server, _, _⟩ := h
    exact List.cons_ne_nil _ _
  constructor
  · rintro ⟨hshort, hdeep⟩
    obtain ⟨hone, hcolons⟩ := (short_link_iff kind h hvalid).mp hshort
    exact ⟨hone, (deep_link_iff searchParams kind hne).mp hdeep, hcolons⟩
  · rintro ⟨hone, hslash, hcolons⟩
    exact ⟨(short_link_iff kind h hvalid).mpr ⟨hone, hcolons⟩, (deep_link_iff searchParams kind hne).mpr hslash⟩

-- What holds of each character of a text is decided over the text, not over all characters.
attribute [local instance (high)] List.decidableBAll

def aliceSlashWork : Text := "@alice/work:m.org".toList

theorem aliceSlashWork_grammar : MatrixId '@' aliceSlashWork :=
  .mk "alice/work".toList "m.org".toList (by decide) (.host _ (.dns _ (by decide) (by decide) (by decide)))

/-- A room of a server without a name. -/
def ipv6Room : Text := "!den:[::1]:8448".toList

theorem ipv6Room_grammar : MatrixId '!' ipv6Room :=
  .mk "den".toList "[::1]:8448".toList (by decide)
    (.port "[::1]".toList "8448".toList (.ipv6 "::1".toList (by decide) (by decide) (by decide)) (by decide) (by decide)
      (by decide))

/-- A user id comes back from both links; the condition fails for the room. -/
theorem chat_link_iff_ipv6Room :
    RoundTrip (fun _ => []) .user "@alice:m.org:8448".toList ∧
    MatrixId ChatKind.room.sigil ipv6Room ∧ ChatKind.room.isValid ipv6Room = true ∧
      ¬ RoundTrip (fun _ => []) .room ipv6Room := by
  have hgrammar : MatrixId ChatKind.user.sigil "@alice:m.org:8448".toList :=
    .mk "alice".toList "m.org:8448".toList (by decide)
      (.port "m.org".toList "8448".toList (.dns _ (by decide) (by decide) (by decide)) (by decide) (by decide) (by decide))
  have huser : ChatKind.user.isValid "@alice:m.org:8448".toList = true := by decide
  have hroom : ChatKind.room.isValid ipv6Room = true := by decide
  refine ⟨(chat_link_iff (fun _ => []) .user _ hgrammar huser).mpr ⟨?_, ?_, ?_⟩, ipv6Room_grammar, hroom, fun h => ?_⟩
  · unfold OneLine
    decide
  · decide
  · exact fun h => nomatch h
  · obtain ⟨-, -, hcolons⟩ := (chat_link_iff (fun _ => []) .room ipv6Room ipv6Room_grammar hroom).mp h
    exact hcolons rfl (by decide)

/-- A user id with a slash has a link that leads nowhere, and a room id is cut at "::". -/
theorem links_lost :
    (MatrixId '@' aliceSlashWork ∧ isValidMatrixUserId aliceSlashWork = true ∧
      getInternalLinkTarget (fun _ => []) (encodeFediMatrixUserUri aliceSlashWork true) = none) ∧
    (MatrixId '!' ipv6Room ∧ isValidMatrixRoomId ipv6Room = true ∧
      decodeFediMatrixRoomUri (encodeFediMatrixRoomUri ipv6Room false) = .ok "!den:[".toList) := by
  refine ⟨⟨aliceSlashWork_grammar, by decide, ?_⟩, ipv6Room_grammar, by decide, ?_⟩
  · rw [internal_user]
    decide
  · rfl

end ChatLinks
