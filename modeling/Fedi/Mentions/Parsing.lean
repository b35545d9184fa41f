import Fedi.Mentions.Html
import Fedi.Lib.InsertionMap

/-!
# Reading mentions from a message (`ui/common/utils/matrix.ts`)

`parseMentionsFromText` goes through the body with a buffer of plain text: at an `@` after a delimiter it looks for the
longest display name that comes next, then for a handle.  `lower` is `toLowerCase`.

`reading` says what it comes to: the mentions of members, each with the text before it, and the text after the last.

    a round writes a mention, or text that it escapes or that needs no escaping  (step_cases)
    the formatted body is the reading, the text escaped and mentions as links    (formattedBody_eq)
    with the text of the mentions, the reading is the body                       (source_reading)
-/

namespace Mentions

open Replacing InsertionMaps

/-! ## Members -/

structure MatrixRoomMember where
  id : JsString
  displayName : Option JsString
deriving DecidableEq

def trim (s : JsString) : JsString := ((s.dropWhile isSpace).reverse.dropWhile isSpace).reverse

def MatrixRoomMember.trimmedName (m : MatrixRoomMember) : JsString := trim (m.displayName.getD [])

/-- Without a first `@`, up to the first `:`. -/
def localpart (id : JsString) : JsString :=
  (if id.head? = some (unit '@') then id.tail else id).takeWhile (· ≠ unit ':')

structure Roster where
  byHandle : List (JsString × MatrixRoomMember)
  byDisplay : List (JsString × MatrixRoomMember)

def Roster.of (lower : JsString → JsString) (roomMembers : List MatrixRoomMember) : Roster where
  byHandle := (roomMembers.map fun m => (lower (localpart m.id), m)).foldl (set Prod.fst) []
  byDisplay :=
    ((roomMembers.filter fun m => m.trimmedName ≠ []).map fun m => (lower m.trimmedName, m)).foldl (set Prod.fst) []

def get (map : List (JsString × MatrixRoomMember)) (key : JsString) : Option MatrixRoomMember :=
  (map.find? fun entry => entry.1 = key).map Prod.snd

/-- Longest first; the sort is stable. -/
def Roster.displayNames (roster : Roster) : List JsString :=
  (roster.byDisplay.map Prod.fst).insertionSort fun a b => b.length ≤ a.length

/-! ## Looking at a place of the body -/

def isDelim : Option UInt16 → Bool
  | none => true
  | some ch => isSpace ch || decide (ch ∈ js ".,;:()\"'`<>")

def isHandleUnit (c : UInt16) : Bool :=
  (unit 'a' ≤ c && c ≤ unit 'z') || (unit 'A' ≤ c && c ≤ unit 'Z') || (unit '0' ≤ c && c ≤ unit '9') ||
    decide (c ∈ js "._-")

/-- `/^[a-z0-9._-]{1,64}/i` -/
def handleMatch (after : JsString) : Option JsString :=
  if (after.takeWhile isHandleUnit).take 64 = [] then none else some ((after.takeWhile isHandleUnit).take 64)

def roomMention : JsString := js "room"

section
variable (lower : JsString → JsString) (roster : Roster) (body : JsString)

def startsMention (i : ℕ) : Bool := decide (body[i]? = some (unit '@')) && (i == 0 || isDelim body[i - 1]?)

/-- `matchedName` and `matchedMember` at `i`, where both are truthy. -/
def displayMatch (i : ℕ) : Option (JsString × MatrixRoomMember) :=
  let after := body.drop (i + 1)
  match roster.displayNames.find? fun name => decide (name <+: lower after) && isDelim body[i + 1 + name.length]? with
  | none => none
  | some name =>
    if after.take name.length = [] then none
    else (get roster.byDisplay name).map fun m => (after.take name.length, m)

/-! ## The scanner -/

structure Scanner where
  i : ℕ
  out : JsString
  plainBuf : JsString
  userIds : List JsString
  hasRoom : Bool

def Scanner.start : Scanner := ⟨0, [], [], [], false⟩

def Scanner.flushPlain (s : Scanner) : Scanner :=
  if s.plainBuf = [] then s else { s with out := s.out ++ escapeHtml s.plainBuf, plainBuf := [] }

/-- `out += html; i += n` -/
def Scanner.emit (s : Scanner) (html : JsString) (n : ℕ) : Scanner := { s with out := s.out ++ html, i := s.i + n }

def Scanner.addUser (s : Scanner) (userId : JsString) : Scanner :=
  { s with userIds := if userId ∈ s.userIds then s.userIds else s.userIds ++ [userId] }

/-- One round of the loop. -/
def Scanner.step (s : Scanner) : Scanner :=
  match body[s.i]? with
  | none => s
  | some ch =>
    if startsMention body s.i then
      match displayMatch lower roster body s.i with
      | some (matchedName, m) =>
        let display := if m.trimmedName ≠ [] then m.trimmedName else matchedName
        (s.addUser m.id).flushPlain.emit (anchorForUser m.id (unit '@' :: display)) (1 + matchedName.length)
      | none =>
        match handleMatch (body.drop (s.i + 1)) with
        | none => s.flushPlain.emit [unit '@'] 1
        | some raw =>
          if lower raw = roomMention ∨ lower raw = js "everyone" then
            { s with hasRoom := true }.flushPlain.emit (unit '@' :: raw) (1 + raw.length)
          else
            match get roster.byHandle (lower raw) with
            | some m =>
              let display := if m.trimmedName ≠ [] then m.trimmedName else m.id
              (s.addUser m.id).flushPlain.emit (anchorForUser m.id (unit '@' :: display)) (1 + raw.length)
            | none => s.flushPlain.emit (unit '@' :: raw) (1 + raw.length)
    else { s with plainBuf := s.plainBuf ++ [ch], i := s.i + 1 }

/-- Each round goes on by a unit at least, so there are no more rounds than units. -/
def Scanner.loop : ℕ → Scanner → Scanner
  | 0, s => s
  | n + 1, s => if s.i < body.length then loop n (s.step lower roster body) else s

end

structure MatrixMentions where
  userIds : Option (List JsString)
  room : Option Bool

structure MentionParsingResult where
  mentions : MatrixMentions
  formattedBody : JsString

def parseMentionsFromText (lower : JsString → JsString) (body : JsString) (roomMembers : List MatrixRoomMember) :
    MentionParsingResult :=
  let s := (Scanner.loop lower (.of lower roomMembers) body body.length .start).flushPlain
  { mentions :=
      { userIds := if s.userIds = [] then none else some s.userIds
        room := if s.hasRoom then some true else none }
    formattedBody := s.out }

/-! ## What a body says -/

/-- A mention of a member, and its text in the body. -/
structure Mention where
  member : MatrixRoomMember
  raw : JsString
deriving DecidableEq

/-- The mention of a member that is recognised at `i`. -/
def recognised (lower : JsString → JsString) (roster : Roster) (body : JsString) (i : ℕ) : Option Mention :=
  if startsMention body i then
    match displayMatch lower roster body i with
    | some (name, m) => some ⟨m, unit '@' :: name⟩
    | none =>
      match handleMatch (body.drop (i + 1)) with
      | none => none
      | some raw =>
        if lower raw = roomMention ∨ lower raw = js "everyone" then none
        else (get roster.byHandle (lower raw)).map fun m => ⟨m, unit '@' :: raw⟩
  else none

/-- The mentions of a text, each with the text before it, and the text after the last one. -/
structure Reading where
  mentions : List (JsString × Mention)
  tail : JsString
deriving DecidableEq

def Reading.empty : Reading := ⟨[], []⟩

/-- A unit of text before all else. -/
def Reading.cons (c : UInt16) : Reading → Reading
  | ⟨[], tail⟩ => ⟨[], c :: tail⟩
  | ⟨(plain, m) :: mentions, tail⟩ => ⟨(c :: plain, m) :: mentions, tail⟩

/-- A mention before all else. -/
def Reading.push (m : Mention) (r : Reading) : Reading := ⟨([], m) :: r.mentions, r.tail⟩

/-- What a text says from `i` on; what is left of a mention is skipped. -/
def readFrom (at? : ℕ → Option Mention) : ℕ → ℕ → JsString → Reading
  | _, _, [] => .empty
  | skip + 1, i, _ :: rest => readFrom at? skip (i + 1) rest
  | 0, i, c :: rest =>
    match at? i with
    | some m => (readFrom at? (m.raw.length - 1) (i + 1) rest).push m
    | none => (readFrom at? 0 (i + 1) rest).cons c

def reading (lower : JsString → JsString) (body : JsString) (roomMembers : List MatrixRoomMember) : Reading :=
  readFrom (recognised lower (.of lower roomMembers) body) 0 0 body

/-- The display name of a member, or the id of one without. -/
def MatrixRoomMember.label (m : MatrixRoomMember) : JsString := if m.trimmedName ≠ [] then m.trimmedName else m.id

def Mention.display (m : Mention) : JsString := unit '@' :: m.member.label

def Mention.html (m : Mention) : JsString := anchorForUser m.member.id m.display

/-- Text escaped, mentions as links. -/
def Reading.html (r : Reading) : JsString :=
  (r.mentions.flatMap fun (plain, m) => escapeHtml plain ++ m.html) ++ escapeHtml r.tail

/-- The body that is read. -/
def Reading.source (r : Reading) : JsString := (r.mentions.flatMap fun (plain, m) => plain ++ m.raw) ++ r.tail

section
variable {lower : JsString → JsString} {roomMembers : List MatrixRoomMember} {body : JsString} {i : ℕ}

/-! ## Recognised mentions -/

theorem mem_of_get {map : List (JsString × MatrixRoomMember)} {key : JsString} {m : MatrixRoomMember}
    (h : get map key = some m) : ∃ key, (key, m) ∈ map := by
  obtain ⟨⟨key', m'⟩, hfind, heq⟩ := Option.map_eq_some_iff.mp h
  cases heq
  exact ⟨key', List.mem_of_find?_eq_some hfind⟩

theorem mem_of_byHandle {key : JsString} {m : MatrixRoomMember} (h : get (Roster.of lower roomMembers).byHandle key = some m) :
    m ∈ roomMembers := by
  obtain ⟨key', hmem⟩ := mem_of_get h
  rcases of_mem_foldl_set hmem with hset | ⟨hnil, -⟩
  · obtain ⟨m', hm', heq⟩ := List.mem_map.mp hset
    cases heq
    exact hm'
  · cases hnil

theorem mem_of_byDisplay {key : JsString} {m : MatrixRoomMember}
    (h : get (Roster.of lower roomMembers).byDisplay key = some m) : m ∈ roomMembers ∧ m.trimmedName ≠ [] := by
  obtain ⟨key', hmem⟩ := mem_of_get h
  rcases of_mem_foldl_set hmem with hset | ⟨hnil, -⟩
  · obtain ⟨m', hm', heq⟩ := List.mem_map.mp hset
    cases heq
    obtain ⟨hmember, hname⟩ := List.mem_filter.mp hm'
    exact ⟨hmember, of_decide_eq_true hname⟩
  · cases hnil

theorem startsMention_at (h : startsMention body i = true) : body[i]? = some (unit '@') := by
  unfold startsMention at h
  rw [Bool.and_eq_true] at h
  exact of_decide_eq_true h.1

theorem drop_eq_cons {c : UInt16} (hc : body[i]? = some c) : body.drop i = c :: body.drop (i + 1) := by
  rw [List.drop_eq_getElem?_toList_append, hc]
  rfl

theorem drop_of_startsMention (h : startsMention body i = true) : body.drop i = unit '@' :: body.drop (i + 1) :=
  drop_eq_cons (startsMention_at h)

theorem displayMatch_spec {name : JsString} {m : MatrixRoomMember}
    (h : displayMatch lower (.of lower roomMembers) body i = some (name, m)) :
    m ∈ roomMembers ∧ m.trimmedName ≠ [] ∧ name <+: body.drop (i + 1) := by
  unfold displayMatch at h
  dsimp only at h
  split at h
  · cases h
  · split_ifs at h
    obtain ⟨m', hget, heq⟩ := Option.map_eq_some_iff.mp h
    cases heq
    exact ⟨(mem_of_byDisplay hget).1, (mem_of_byDisplay hget).2, List.take_prefix _ _⟩

theorem handleMatch_spec {after raw : JsString} (h : handleMatch after = some raw) :
    raw <+: after ∧ ∀ c ∈ raw, isHandleUnit c = true := by
  unfold handleMatch at h
  split_ifs at h
  cases h
  refine ⟨(List.take_prefix _ _).trans (List.takeWhile_prefix _), ?_⟩
  intro c hc
  exact List.mem_takeWhile_imp (List.mem_of_mem_take hc)

/-- A recognised mention is one of a member, by the text that stands there. -/
theorem recognised_spec {m : Mention} (h : recognised lower (.of lower roomMembers) body i = some m) :
    m.member ∈ roomMembers ∧ m.raw ≠ [] ∧ m.raw <+: body.drop i := by
  unfold recognised at h
  split_ifs at h with hstart
  rw [drop_of_startsMention hstart]
  split at h
  next name member hdisplay =>
    cases h
    obtain ⟨hmember, -, hname⟩ := displayMatch_spec hdisplay
    exact ⟨hmember, List.cons_ne_nil _ _, List.cons_prefix_cons.mpr ⟨rfl, hname⟩⟩
  next =>
    split at h
    · cases h
    next raw hhandle =>
      split_ifs at h
      obtain ⟨member, hget, heq⟩ := Option.map_eq_some_iff.mp h
      cases heq
      exact ⟨mem_of_byHandle hget, List.cons_ne_nil _ _, List.cons_prefix_cons.mpr ⟨rfl, (handleMatch_spec hhandle).1⟩⟩

/-- Nothing is recognised where there is no `@`. -/
theorem recognised_eq_none (h : body[i]? ≠ some (unit '@')) : recognised lower (.of lower roomMembers) body i = none := by
  unfold recognised
  rw [if_neg]
  intro hstart
  exact h (startsMention_at hstart)

/-! ## The reading of a body -/

section
variable {at? : ℕ → Option Mention}

theorem readFrom_eq_drop : ∀ (skip i : ℕ) (rest : JsString),
    readFrom at? skip i rest = readFrom at? 0 (i + skip) (rest.drop skip)
  | 0, i, rest => rfl
  | skip + 1, i, [] => rfl
  | skip + 1, i, _ :: rest => by
    rw [readFrom, readFrom_eq_drop skip (i + 1) rest, List.drop_succ_cons, Nat.add_assoc, Nat.add_comm 1 skip]

/-- What the body says from `i` on. -/
def readAt (at? : ℕ → Option Mention) (body : JsString) (i : ℕ) : Reading := readFrom at? 0 i (body.drop i)

theorem readAt_end (h : body.length ≤ i) : readAt at? body i = .empty := by
  unfold readAt
  rw [List.drop_eq_nil_of_le h]
  rfl

theorem readAt_cons {c : UInt16} (hc : body[i]? = some c) (h : at? i = none) :
    readAt at? body i = (readAt at? body (i + 1)).cons c := by
  unfold readAt
  rw [drop_eq_cons hc, readFrom, h]

theorem readAt_push {m : Mention} (h : at? i = some m) (hraw : m.raw ≠ []) (hi : i < body.length) :
    readAt at? body i = (readAt at? body (i + m.raw.length)).push m := by
  unfold readAt
  have hpos : 0 < m.raw.length := List.length_pos_iff.mpr hraw
  rw [List.drop_eq_getElem_cons hi, readFrom, h]
  dsimp only
  have hnext : i + 1 + (m.raw.length - 1) = i + m.raw.length := by omega
  rw [readFrom_eq_drop, List.drop_drop, hnext]

end

/-- The rule for what a body says from each place on. -/
theorem readAt_induction {at? : ℕ → Option Mention} {P : ℕ → Reading → Prop} (hraw : ∀ i m, at? i = some m → m.raw ≠ [])
    (hend : ∀ i, body.length ≤ i → P i .empty)
    (hcons : ∀ i c r, body[i]? = some c → at? i = none → P (i + 1) r → P i (r.cons c))
    (hpush : ∀ i m r, i < body.length → at? i = some m → P (i + m.raw.length) r → P i (r.push m)) (i : ℕ) :
    P i (readAt at? body i) := by
  have hall : ∀ n i, body.length ≤ i + n → P i (readAt at? body i) := by
    intro n
    induction n with
    | zero =>
      intro i hi
      rw [readAt_end (by omega)]
      exact hend i (by omega)
    | succ n ih =>
      intro i hn
      by_cases hi : i < body.length
      · cases hat : at? i with
        | some m =>
          have hpos : 0 < m.raw.length := List.length_pos_iff.mpr (hraw i m hat)
          rw [readAt_push hat (hraw i m hat) hi]
          exact hpush i m _ hi hat (ih _ (by omega))
        | none =>
          rw [readAt_cons (List.getElem?_eq_getElem hi) hat]
          exact hcons i _ _ (List.getElem?_eq_getElem hi) hat (ih _ (by omega))
      · rw [readAt_end (by omega)]
        exact hend i (by omega)
  exact hall body.length i (by omega)

theorem source_cons (c : UInt16) (r : Reading) : (r.cons c).source = c :: r.source := by
  obtain ⟨mentions, tail⟩ := r
  cases mentions with
  | nil => rfl
  | cons pm mentions => rfl

theorem source_push (m : Mention) (r : Reading) : (r.push m).source = m.raw ++ r.source := by
  simp only [Reading.push, Reading.source, List.flatMap_cons, List.nil_append, List.append_assoc]

/-- The text of the mentions and the text around them are the body. -/
theorem source_reading (lower : JsString → JsString) (body : JsString) (roomMembers : List MatrixRoomMember) :
    (reading lower body roomMembers).source = body := by
  have hspec : ∀ i m, recognised lower (.of lower roomMembers) body i = some m → m.raw ≠ [] :=
    fun i m hat => (recognised_spec hat).2.1
  apply readAt_induction (P := fun i r => r.source = body.drop i) hspec _ _ _ 0
  · intro i hi
    rw [List.drop_eq_nil_of_le hi]
    rfl
  · intro i c r hc _ ih
    rw [source_cons, ih, drop_eq_cons hc]
  · intro i m r _ hat ih
    obtain ⟨rest, hrest⟩ := (recognised_spec hat).2.2
    rw [source_push, ih, ← List.drop_drop, ← hrest, List.drop_left]

/-- Only members of the room are mentioned. -/
theorem member_of_reading (lower : JsString → JsString) (body : JsString) (roomMembers : List MatrixRoomMember) :
    ∀ pm ∈ (reading lower body roomMembers).mentions, pm.2.member ∈ roomMembers := by
  have hspec : ∀ i m, recognised lower (.of lower roomMembers) body i = some m → m.raw ≠ [] :=
    fun i m hat => (recognised_spec hat).2.1
  apply readAt_induction (P := fun _ r => ∀ pm ∈ r.mentions, pm.2.member ∈ roomMembers) hspec _ _ _ 0
  · intro i _ pm hpm
    cases hpm
  · intro i c r _ _ ih pm hpm
    obtain ⟨mentions, tail⟩ := r
    cases mentions with
    | nil => cases hpm
    | cons first mentions =>
      rcases List.mem_cons.mp hpm with rfl | hrest
      · exact ih first List.mem_cons_self
      · exact ih pm (List.mem_cons_of_mem _ hrest)
  · intro i m r _ hat ih pm hpm
    rcases List.mem_cons.mp hpm with rfl | hrest
    · exact (recognised_spec hat).1
    · exact ih pm hrest

theorem html_cons (c : UInt16) (r : Reading) : (r.cons c).html = escapeHtml [c] ++ r.html := by
  obtain ⟨mentions, tail⟩ := r
  cases mentions with
  | nil =>
    show escapeHtml ([c] ++ tail) = _
    rw [escapeHtml_append]
    rfl
  | cons pm mentions =>
    obtain ⟨plain, m⟩ := pm
    simp only [Reading.cons, Reading.html, List.flatMap_cons]
    rw [← List.singleton_append, escapeHtml_append]
    simp only [List.append_assoc]

theorem html_push (m : Mention) (r : Reading) : (r.push m).html = m.html ++ r.html := by
  simp only [Reading.push, Reading.html, List.flatMap_cons, List.append_assoc]
  rfl

/-- Text in which nothing is recognised is read as text. -/
theorem html_readAt_append {at? : ℕ → Option Mention} : ∀ {text : JsString} {i : ℕ}, text <+: body.drop i →
    (∀ k < text.length, at? (i + k) = none) →
      (readAt at? body i).html = escapeHtml text ++ (readAt at? body (i + text.length)).html
  | [], i, _, _ => rfl
  | c :: text, i, hbegins, hnone => by
    obtain ⟨rest, hrest⟩ := hbegins
    rw [List.cons_append] at hrest
    have hc : body[i]? = some c := by
      rw [← List.head?_drop, ← hrest]
      rfl
    have hdrop : body.drop (i + 1) = text ++ rest := by
      rw [← List.tail_drop, ← hrest]
      rfl
    have htext : text <+: body.drop (i + 1) := ⟨rest, hdrop.symm⟩
    rw [readAt_cons hc (hnone 0 (by simp)), html_cons, html_readAt_append htext ?_]
    · rw [← List.append_assoc, ← escapeHtml_append, List.length_cons, Nat.add_right_comm, Nat.add_assoc]
      rfl
    · intro k hk
      rw [Nat.add_assoc, Nat.add_comm 1 k]
      exact hnone (k + 1) (by simpa using hk)

/-! ## A round -/

/-- What is written once the buffer is flushed. -/
def Scanner.written (s : Scanner) : JsString := s.out ++ escapeHtml s.plainBuf

theorem escapeHtml_nil : escapeHtml [] = [] := rfl

theorem written_flushPlain (s : Scanner) : s.flushPlain.out = s.written ∧ s.flushPlain.plainBuf = [] := by
  unfold Scanner.flushPlain Scanner.written
  by_cases hbuf : s.plainBuf = []
  · rw [if_pos hbuf, hbuf, escapeHtml_nil, List.append_nil]
    exact ⟨rfl, rfl⟩
  · rw [if_neg hbuf]
    exact ⟨rfl, rfl⟩

theorem i_flushPlain (s : Scanner) : s.flushPlain.i = s.i := by
  unfold Scanner.flushPlain
  by_cases hbuf : s.plainBuf = []
  · rw [if_pos hbuf]
  · rw [if_neg hbuf]

/-- HTML that is written after the buffer. -/
theorem written_emit (s : Scanner) (html : JsString) (n : ℕ) :
    (s.flushPlain.emit html n).written = s.written ++ html ∧ (s.flushPlain.emit html n).i = s.i + n := by
  obtain ⟨hout, hbuf⟩ := written_flushPlain s
  constructor
  · show (s.flushPlain.out ++ html) ++ escapeHtml s.flushPlain.plainBuf = _
    rw [hout, hbuf, escapeHtml_nil, List.append_nil]
  · show s.flushPlain.i + n = _
    rw [i_flushPlain]

/-- A round writes a mention. -/
def WritesMention (at? : ℕ → Option Mention) (s s' : Scanner) : Prop :=
  ∃ m, at? s.i = some m ∧ s'.i = s.i + m.raw.length ∧ s'.written = s.written ++ m.html

/-- A round writes text in which no mention is recognised. -/
def WritesText (at? : ℕ → Option Mention) (body : JsString) (s s' : Scanner) : Prop :=
  ∃ text, text ≠ [] ∧ text <+: body.drop s.i ∧ (∀ k < text.length, at? (s.i + k) = none) ∧
    s'.i = s.i + text.length ∧ s'.written = s.written ++ escapeHtml text

/-- Units of a handle are neither `@` nor escaped. -/
theorem isHandleUnit_plain {c : UInt16} (h : isHandleUnit c = true) : c ≠ unit '@' ∧ c ∉ specials := by
  constructor
  · rintro rfl
    cases h
  · intro hmem
    simp only [specials, List.mem_cons, List.not_mem_nil, or_false] at hmem
    rcases hmem with rfl | rfl | rfl | rfl | rfl <;> cases h

/-- An `@` with what looks like a handle is written as it is. -/
theorem writesText_handle {at? : ℕ → Option Mention} {s s' : Scanner} (raw : JsString)
    (hraw : unit '@' :: raw <+: body.drop s.i) (hunits : ∀ c ∈ raw, isHandleUnit c = true) (hnone : at? s.i = none)
    (hrest : ∀ j, body[j]? ≠ some (unit '@') → at? j = none) (hi : s'.i = s.i + (1 + raw.length))
    (hwritten : s'.written = s.written ++ unit '@' :: raw) : WritesText at? body s s' := by
  have hplain : escapeHtml (unit '@' :: raw) = unit '@' :: raw := by
    apply escapeHtml_eq_self
    rw [List.forall_mem_cons]
    exact ⟨by decide, fun c hc => (isHandleUnit_plain (hunits c hc)).2⟩
  refine ⟨unit '@' :: raw, List.cons_ne_nil _ _, hraw, ?_, ?_, ?_⟩
  · intro k hk
    cases k with
    | zero => exact hnone
    | succ k =>
      apply hrest
      have hk' : k < raw.length := by simpa using hk
      obtain ⟨rest, heq⟩ := hraw
      have hat : body[s.i + (k + 1)]? = some raw[k] := by
        rw [← List.getElem?_drop, ← heq, List.cons_append, List.getElem?_cons_succ, List.getElem?_append_left hk',
          List.getElem?_eq_getElem hk']
      rw [hat]
      intro heq
      exact (isHandleUnit_plain (hunits _ (List.getElem_mem hk'))).1 (Option.some.inj heq)
  · rw [hi, List.length_cons, Nat.add_comm 1]
  · rw [hwritten, hplain]

theorem step_cases (lower : JsString → JsString) (roomMembers : List MatrixRoomMember) {s : Scanner}
    (hi : s.i < body.length) :
    WritesMention (recognised lower (.of lower roomMembers) body) s (s.step lower (.of lower roomMembers) body) ∨
      WritesText (recognised lower (.of lower roomMembers) body) body s (s.step lower (.of lower roomMembers) body) := by
  have hrest : ∀ j, body[j]? ≠ some (unit '@') → recognised lower (.of lower roomMembers) body j = none :=
    fun j hj => recognised_eq_none hj
  unfold Scanner.step
  rw [List.getElem?_eq_getElem hi]
  dsimp only
  by_cases hstart : startsMention body s.i = true
  · rw [if_pos hstart]
    have hrecognised : recognised lower (.of lower roomMembers) body s.i = _ := if_pos hstart
    cases hdisplay : displayMatch lower (.of lower roomMembers) body s.i with
    | some found =>
      obtain ⟨name, m⟩ := found
      obtain ⟨-, hname, -⟩ := displayMatch_spec hdisplay
      rw [hdisplay] at hrecognised
      dsimp only at hrecognised ⊢
      have hlabel : m.label = m.trimmedName := if_pos hname
      obtain ⟨hwritten, hnext⟩ := written_emit (s.addUser m.id) (anchorForUser m.id (unit '@' :: m.trimmedName))
        (1 + name.length)
      refine .inl ⟨⟨m, unit '@' :: name⟩, hrecognised, ?_, ?_⟩
      · rw [if_pos hname, hnext, List.length_cons, Nat.add_comm 1]
        rfl
      · rw [if_pos hname, hwritten]
        show _ = _ ++ anchorForUser m.id (unit '@' :: m.label)
        rw [hlabel]
        rfl
    | none =>
      rw [hdisplay] at hrecognised
      dsimp only at hrecognised ⊢
      cases hhandle : handleMatch (body.drop (s.i + 1)) with
      | none =>
        rw [hhandle] at hrecognised
        obtain ⟨hwritten, hnext⟩ := written_emit s [unit '@'] 1
        refine .inr (writesText_handle [] ?_ (by simp) hrecognised hrest hnext hwritten)
        rw [drop_of_startsMention hstart]
        exact List.cons_prefix_cons.mpr ⟨rfl, List.nil_prefix⟩
      | some raw =>
        rw [hhandle] at hrecognised
        dsimp only at hrecognised ⊢
        obtain ⟨hbegins, hunits⟩ := handleMatch_spec hhandle
        have hraw : unit '@' :: raw <+: body.drop s.i := by
          rw [drop_of_startsMention hstart]
          exact List.cons_prefix_cons.mpr ⟨rfl, hbegins⟩
        by_cases hroom : lower raw = roomMention ∨ lower raw = js "everyone"
        · rw [if_pos hroom] at hrecognised ⊢
          obtain ⟨hwritten, hnext⟩ := written_emit { s with hasRoom := true } (unit '@' :: raw) (1 + raw.length)
          exact .inr (writesText_handle raw hraw hunits hrecognised hrest hnext hwritten)
        · rw [if_neg hroom] at hrecognised ⊢
          cases hget : get (Roster.of lower roomMembers).byHandle (lower raw) with
          | some m =>
            rw [hget] at hrecognised
            obtain ⟨hwritten, hnext⟩ := written_emit (s.addUser m.id) (anchorForUser m.id (unit '@' :: m.label))
              (1 + raw.length)
            refine .inl ⟨⟨m, unit '@' :: raw⟩, hrecognised, ?_, hwritten⟩
            rw [List.length_cons, Nat.add_comm raw.length]
            exact hnext
          | none =>
            rw [hget] at hrecognised
            obtain ⟨hwritten, hnext⟩ := written_emit s (unit '@' :: raw) (1 + raw.length)
            exact .inr (writesText_handle raw hraw hunits hrecognised hrest hnext hwritten)
  · rw [if_neg hstart]
    refine .inr ⟨[body[s.i]], List.cons_ne_nil _ _, ?_, ?_, rfl, ?_⟩
    · rw [List.drop_eq_getElem_cons hi]
      exact List.cons_prefix_cons.mpr ⟨rfl, List.nil_prefix⟩
    · intro k hk
      obtain rfl : k = 0 := by simpa using hk
      exact if_neg hstart
    · show s.out ++ escapeHtml (s.plainBuf ++ [body[s.i]]) = s.out ++ escapeHtml s.plainBuf ++ _
      rw [escapeHtml_append, List.append_assoc]

/-! ## The formatted body -/

/-- From any round on, the scanner adds what the rest of the body says. -/
theorem written_loop : ∀ (n : ℕ) (s : Scanner), body.length ≤ s.i + n →
    (Scanner.loop lower (.of lower roomMembers) body n s).written =
      s.written ++ (readAt (recognised lower (.of lower roomMembers) body) body s.i).html
  | 0, s, hn => by
    rw [readAt_end (by omega)]
    show s.written = s.written ++ []
    rw [List.append_nil]
  | n + 1, s, hn => by
    rw [Scanner.loop]
    by_cases hi : s.i < body.length
    · rw [if_pos hi]
      rcases step_cases lower roomMembers hi with
        ⟨m, hat, hnext, hwritten⟩ | ⟨text, hne, htext, hnone, hnext, hwritten⟩
      · have hraw := (recognised_spec hat).2.1
        have hpos : 0 < m.raw.length := List.length_pos_iff.mpr hraw
        rw [written_loop n _ (by omega), hwritten, hnext, readAt_push hat hraw hi, html_push, List.append_assoc]
      · have hpos : 0 < text.length := List.length_pos_iff.mpr hne
        rw [written_loop n _ (by omega), hwritten, hnext, html_readAt_append htext hnone, List.append_assoc]
    · rw [if_neg hi, readAt_end (by omega)]
      show s.written = s.written ++ []
      rw [List.append_nil]

theorem formattedBody_eq (lower : JsString → JsString) (body : JsString) (roomMembers : List MatrixRoomMember) :
    (parseMentionsFromText lower body roomMembers).formattedBody = (reading lower body roomMembers).html := by
  show (Scanner.flushPlain _).out = _
  rw [(written_flushPlain _).1, written_loop body.length .start (by simp [Scanner.start])]
  rfl

end

end Mentions
