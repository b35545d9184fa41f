import Fedi.Lib.Replacing

/-!
# Messages as HTML (`ui/common/utils/matrix.ts`)

`escapeHtml` writes five letters as entities, `anchorForUser` writes a mention as a link, and `splitHtmlRuns` reads a
message back: links by one regular expression, line breaks by another, entities by a chain of replacements.

    unescapeHtml (escapeHtml s) = s with "'" for "&apos;"                         (unescapeHtml_escapeHtml)
    a text without markup is one run                                              (runsFrom_plain)
    text, a mention, and the rest are the runs of the text, a link, and the rest  (runsFrom_anchor)
    no link has a line terminator in its text                                     (no_lineTerminator_of_link)
-/

namespace Mentions

open Replacing

/-! ## Strings -/

/-- The code units of UTF-16. -/
abbrev JsString := List UInt16

def unit (c : Char) : UInt16 := c.toNat.toUInt16

/-- A text of characters of one unit. -/
def js (s : String) : JsString := s.toList.map unit

/-- `\s`, and what `trim` takes off. -/
def isSpace (c : UInt16) : Bool :=
  c ∈ ([0x9, 0xA, 0xB, 0xC, 0xD, 0x20, 0xA0, 0x1680, 0x2028, 0x2029, 0x202F, 0x205F, 0x3000, 0xFEFF] : List UInt16) ||
    (0x2000 ≤ c && c ≤ 0x200A)

/-- What `.` does not match. -/
def isLineTerminator (c : UInt16) : Bool := c ∈ ([0xA, 0xD, 0x2028, 0x2029] : List UInt16)

/-! ## Entities -/

def escapeHtml (s : JsString) : JsString :=
  let s := replaceAll (js "&") (js "&amp;") s
  let s := replaceAll (js "<") (js "&lt;") s
  let s := replaceAll (js ">") (js "&gt;") s
  let s := replaceAll (js "\"") (js "&quot;") s
  let s := replaceAll (js "'") (js "&#39;") s
  replaceAll (js "&apos;") (js "'") s

def unescapeHtml (s : JsString) : JsString :=
  let s := replaceAll (js "&lt;") (js "<") s
  let s := replaceAll (js "&gt;") (js ">") s
  let s := replaceAll (js "&quot;") (js "\"") s
  let s := replaceAll (js "&#39;") (js "'") s
  let s := replaceAll (js "&amp;") (js "&") s
  replaceAll (js "&apos;") (js "'") s

def matrixUrlBase : JsString := js "https://matrix.to/#/"

def anchorForUser (userId display : JsString) : JsString :=
  js "<a href=\"" ++ (matrixUrlBase ++ userId) ++ js "\">" ++ escapeHtml display ++ js "</a>"

/-! ## Regular expressions -/

/-- Letters that `i` does not tell apart: no other unit has an ASCII letter as its upper case. -/
def canonicalize (c : UInt16) : UInt16 := if unit 'a' ≤ c ∧ c ≤ unit 'z' then c - 32 else c

/-- What comes after a text that is matched without regard to case. -/
def afterText : JsString → JsString → Option JsString
  | [], s => some s
  | _ :: _, [] => none
  | p :: ps, c :: s => if canonicalize p = canonicalize c then afterText ps s else none

/-- One unit or more, as many as there are. -/
def many1 (p : UInt16 → Bool) (s : JsString) : Option (JsString × JsString) :=
  if s.takeWhile p = [] then none else some (s.takeWhile p, s.dropWhile p)

/-- `(.*?)<\/a>` -/
def untilClosing : JsString → Option (JsString × JsString)
  | [] => none
  | c :: rest =>
    match afterText (js "</a>") (c :: rest) with
    | some rest' => some ([], rest')
    | none => if isLineTerminator c then none else (untilClosing rest).map fun (text, rest') => (c :: text, rest')

structure AnchorMatch where
  href : JsString
  text : JsString
  rest : JsString

/-- `<a\s+href="([^"]+)"[^>]*>(.*?)<\/a>` at the head: what each repetition takes is followed by what it cannot match. -/
def anchorRe (s : JsString) : Option AnchorMatch := do
  let s ← afterText (js "<a") s
  let (_, s) ← many1 isSpace s
  let s ← afterText (js "href=\"") s
  let (href, s) ← many1 (· ≠ unit '"') s
  let s ← afterText (js "\"") s
  let s ← afterText (js ">") (s.dropWhile (· ≠ unit '>'))
  let (text, rest) ← untilClosing s
  some ⟨href, text, rest⟩

/-- The first match, and what stands before it. -/
def exec : JsString → Option (JsString × AnchorMatch)
  | [] => none
  | c :: rest =>
    match anchorRe (c :: rest) with
    | some m => some ([], m)
    | none => (exec rest).map fun (chunk, m) => (c :: chunk, m)

/-- `<br\s*\/?>` at the head. -/
def brRe (s : JsString) : Option ℕ := do
  let s1 ← afterText (js "<br") s
  let s2 := s1.dropWhile isSpace
  let rest ← afterText (js ">") ((afterText (js "/") s2).getD s2)
  some (s.length - rest.length)

/-- `<[^>]*>` at the head. -/
def tagRe (s : JsString) : Option ℕ := do
  let s1 ← afterText (js "<") s
  let rest ← afterText (js ">") (s1.dropWhile (· ≠ unit '>'))
  some (s.length - rest.length)

/-! ## Runs -/

inductive HtmlRun where
  | text (text : JsString)
  | link (text href : JsString)
deriving DecidableEq

def HtmlRun.content : HtmlRun → JsString
  | .text content => content
  | .link content _ => content

def HtmlRun.isLink : HtmlRun → Bool
  | .text _ => false
  | .link _ _ => true

def pieceRun (p : JsString) : List HtmlRun := if p = [] then [] else [.text (unescapeHtml p)]

/-- The runs of pieces between line breaks. -/
def pieceRuns : List JsString → List HtmlRun
  | [] => []
  | [p] => pieceRun p
  | p :: pieces => pieceRun p ++ .text (js "\n") :: pieceRuns pieces

def textRuns (chunk : JsString) : List HtmlRun := pieceRuns (splitMatches brRe chunk)

/-- The loop from `last` on.  Each round takes a match, so there are no more rounds than units. -/
def runsFrom : ℕ → JsString → List HtmlRun
  | 0, html => textRuns html
  | n + 1, html =>
    match exec html with
    | some (chunk, m) =>
      textRuns chunk ++ .link (unescapeHtml (replaceMatches tagRe [] m.text)) m.href :: runsFrom n m.rest
    | none => textRuns html

def splitHtmlRuns (html : JsString) : List HtmlRun := runsFrom html.length html

/-! ## Escaping -/

-- What holds of each unit of a text is decided over the text, not over all units.
attribute [local instance (high)] List.decidableBAll

/-- The letters that are written as entities, the last one replaced first. -/
def specials : JsString := [unit '\'', unit '"', unit '>', unit '<', unit '&']

def entity (c : UInt16) : JsString :=
  if c = unit '&' then js "&amp;"
  else if c = unit '<' then js "&lt;"
  else if c = unit '>' then js "&gt;"
  else if c = unit '"' then js "&quot;"
  else if c = unit '\'' then js "&#39;"
  else [c]

/-- `&apos;`, which no letter is written as. -/
def apos : JsString := js "&apos;"

def unapos (s : JsString) : JsString := replaceAll apos (js "'") s

/-- Letter by letter; there is no `&apos;` in an escaped text to replace. -/
theorem escapeHtml_eq (s : JsString) : escapeHtml s = coded entity specials s := by
  have hamp := replaceAll_letter entity (unit '&') [] (by decide) (by decide) s
  have hlt := replaceAll_letter entity (unit '<') [unit '&'] (by decide) (by decide) s
  have hgt := replaceAll_letter entity (unit '>') [unit '<', unit '&'] (by decide) (by decide) s
  have hquot := replaceAll_letter entity (unit '"') [unit '>', unit '<', unit '&'] (by decide) (by decide) s
  have hapos := replaceAll_letter entity (unit '\'') [unit '"', unit '>', unit '<', unit '&'] (by decide) (by decide) s
  rw [coded_no_keys] at hamp
  rw [← hamp] at hlt
  rw [← hlt] at hgt
  rw [← hgt] at hquot
  rw [← hquot] at hapos
  have hnone : replaceAll apos (js "'") (coded entity specials s) = coded entity specials s :=
    replaceAll_coded_eq_self entity specials (h := unit '&') (by decide) (by decide) _ s
  exact (congrArg (replaceAll apos (js "'")) hapos).trans hnone

/-- Reading the entities back, one letter at a time; `&apos;` is read last, from what the text itself says. -/
theorem unescapeHtml_escapeHtml (s : JsString) : unescapeHtml (escapeHtml s) = unapos s := by
  have hperm : specials.Perm [unit '<', unit '>', unit '"', unit '\'', unit '&'] := by decide
  have hlt := replaceAll_coded entity (unit '<') [unit '>', unit '"', unit '\'', unit '&'] rfl (by decide) (by decide)
    (by decide) s
  have hgt := replaceAll_coded entity (unit '>') [unit '"', unit '\'', unit '&'] rfl (by decide) (by decide)
    (by decide) s
  have hquot := replaceAll_coded entity (unit '"') [unit '\'', unit '&'] rfl (by decide) (by decide) (by decide) s
  have hapos := replaceAll_coded entity (unit '\'') [unit '&'] rfl (by decide) (by decide) (by decide) s
  have hamp := replaceAll_coded entity (unit '&') [] rfl (by decide) (by decide) (by decide) s
  rw [← hapos, ← hquot, ← hgt, ← hlt, coded_no_keys, ← coded_perm hperm, ← escapeHtml_eq] at hamp
  exact congrArg unapos hamp

theorem escapeHtml_append (s t : JsString) : escapeHtml (s ++ t) = escapeHtml s ++ escapeHtml t := by
  rw [escapeHtml_eq, escapeHtml_eq, escapeHtml_eq, coded_append]

theorem escapeHtml_eq_self {s : JsString} (h : ∀ c ∈ s, c ∉ specials) : escapeHtml s = s := by
  rw [escapeHtml_eq, coded_eq_self h]

/-- An escaped text has no markup. -/
theorem lt_not_mem_escapeHtml (s : JsString) : unit '<' ∉ escapeHtml s := by
  rw [escapeHtml_eq]
  intro h
  rcases mem_coded h with ⟨-, hplain⟩ | ⟨k, hk, hmem⟩
  · exact hplain (by decide)
  · have hwords : ∀ k ∈ specials, unit '<' ∉ entity k := by decide
    exact hwords k hk hmem

/-- Escaping adds no line terminator. -/
theorem mem_of_mem_escapeHtml {s : JsString} {c : UInt16} (h : c ∈ escapeHtml s) (hc : isLineTerminator c = true) :
    c ∈ s := by
  rw [escapeHtml_eq] at h
  rcases mem_coded h with ⟨hmem, -⟩ | ⟨k, hk, hmem⟩
  · exact hmem
  · have hwords : ∀ k ∈ specials, ∀ c ∈ entity k, isLineTerminator c = false := by decide
    rw [hwords k hk c hmem] at hc
    cases hc

theorem mem_unescapeHtml {s : JsString} {c : UInt16} (h : c ∈ unescapeHtml s) (hc : isLineTerminator c = true) :
    c ∈ s := by
  have hplain : ∀ c ∈ js "<" ++ js ">" ++ js "\"" ++ js "'" ++ js "&", isLineTerminator c = false := by decide
  have hstep : ∀ {p r s : JsString}, (∀ c ∈ r, isLineTerminator c = false) → c ∈ replaceAll p r s → c ∈ s := by
    intro p r s hr hmem
    rcases mem_replaceMatches hmem with hs | hr'
    · exact hs
    · rw [hr c hr'] at hc
      cases hc
  unfold unescapeHtml at h
  exact hstep (by decide) (hstep (by decide) (hstep (by decide) (hstep (by decide) (hstep (by decide)
    (hstep (by decide) h)))))

/-! ## Matching -/

theorem afterText_eq_none {c d : UInt16} (h : canonicalize d ≠ canonicalize c) (p s : JsString) :
    afterText (d :: p) (c :: s) = none := by
  rw [afterText, if_neg h]

/-- Only `<` begins a tag. -/
theorem canonicalize_eq_lt {c : UInt16} (h : canonicalize (unit '<') = canonicalize c) : c = unit '<' := by
  unfold canonicalize at h
  by_cases hletter : unit 'a' ≤ c ∧ c ≤ unit 'z'
  · rw [if_pos hletter] at h
    have h60 : c - 32 = 60 := h.symm
    have hc : c = 92 := by
      have := congrArg (· + 32) h60
      simpa using this
    rw [hc] at hletter
    exact absurd hletter (by decide)
  · rw [if_neg hletter] at h
    exact h.symm

theorem afterText_tag_eq_none {c : UInt16} (hc : c ≠ unit '<') (p s : JsString) :
    afterText (unit '<' :: p) (c :: s) = none := by
  apply afterText_eq_none
  intro h
  exact hc (canonicalize_eq_lt h)

theorem anchorRe_eq_none {c : UInt16} (hc : c ≠ unit '<') (s : JsString) : anchorRe (c :: s) = none := by
  have h := afterText_tag_eq_none hc (js "a") s
  unfold anchorRe
  show (afterText (unit '<' :: js "a") (c :: s)).bind _ = none
  rw [h]
  rfl

theorem brRe_eq_none {c : UInt16} (hc : c ≠ unit '<') (s : JsString) : brRe (c :: s) = none := by
  have h := afterText_tag_eq_none hc (js "br") s
  unfold brRe
  show (afterText (unit '<' :: js "br") (c :: s)).bind _ = none
  rw [h]
  rfl

theorem tagRe_eq_none {c : UInt16} (hc : c ≠ unit '<') (s : JsString) : tagRe (c :: s) = none := by
  have h := afterText_tag_eq_none hc [] s
  unfold tagRe
  show (afterText (unit '<' :: []) (c :: s)).bind _ = none
  rw [h]
  rfl

/-- A pattern that only matches at `<` matches nowhere in a text without it. -/
theorem matches_nowhere {matchAt : JsString → Option ℕ} (hmatch : ∀ c, c ≠ unit '<' → ∀ s, matchAt (c :: s) = none)
    {s : JsString} (hs : unit '<' ∉ s) : ∀ v, v <:+ s → v ≠ [] → matchAt v = none := by
  intro v hv hne
  obtain ⟨c, v', rfl⟩ := List.exists_cons_of_ne_nil hne
  apply hmatch
  rintro rfl
  exact hs (hv.subset List.mem_cons_self)

theorem untilClosing_append {s : JsString} (hlt : unit '<' ∉ s) (hline : ∀ c ∈ s, isLineTerminator c = false)
    (t : JsString) : untilClosing (s ++ js "</a>" ++ t) = some (s, t) := by
  induction s with
  | nil => rfl
  | cons c s ih =>
    rw [List.mem_cons, not_or] at hlt
    rw [List.forall_mem_cons] at hline
    have hclosing : afterText (js "</a>") (c :: (s ++ js "</a>" ++ t)) = none :=
      afterText_tag_eq_none (Ne.symm hlt.1) (js "/a>") _
    rw [List.cons_append, List.cons_append, untilClosing, hclosing]
    dsimp only
    rw [hline.1, ih hlt.2 hline.2]
    rfl

/-- What `.` took has no line terminator. -/
theorem no_lineTerminator_of_untilClosing : ∀ {s text rest : JsString}, untilClosing s = some (text, rest) →
    ∀ c ∈ text, isLineTerminator c = false
  | [], _, _, h => by cases h
  | c :: s, text, rest, h => by
    rw [untilClosing] at h
    split at h
    · cases h
      simp
    · split_ifs at h with hline
      obtain ⟨⟨text', rest'⟩, hrest, heq⟩ := Option.map_eq_some_iff.mp h
      cases heq
      rw [List.forall_mem_cons]
      exact ⟨Bool.eq_false_iff.mpr hline, no_lineTerminator_of_untilClosing hrest⟩

theorem many1_append {p : UInt16 → Bool} {s : JsString} {c : UInt16} (hs : ∀ x ∈ s, p x = true) (hne : s ≠ [])
    (hc : p c = false) (t : JsString) : many1 p (s ++ c :: t) = some (s, c :: t) := by
  have htake : (s ++ c :: t).takeWhile p = s := by
    rw [List.takeWhile_append_of_pos hs, List.takeWhile_cons_of_neg (by simp [hc]), List.append_nil]
  have hdrop : (s ++ c :: t).dropWhile p = c :: t := by
    rw [List.dropWhile_append_of_pos hs, List.dropWhile_cons_of_neg (by simp [hc])]
  unfold many1
  rw [htake, hdrop, if_neg hne]

theorem anchorRe_open (s : JsString) :
    anchorRe (js "<a href=\"" ++ s) = (do
      let (href, s) ← many1 (· ≠ unit '"') s
      let s ← afterText (js "\"") s
      let s ← afterText (js ">") (s.dropWhile (· ≠ unit '>'))
      let (text, rest) ← untilClosing s
      some ⟨href, text, rest⟩) := by
  have hname : afterText (js "<a") (js "<a href=\"" ++ s) = some (js " href=\"" ++ s) := rfl
  have hspace : many1 isSpace (js " href=\"" ++ s) = some (js " ", js "href=\"" ++ s) := rfl
  have hhref : afterText (js "href=\"") (js "href=\"" ++ s) = some s := rfl
  unfold anchorRe
  simp only [Option.bind_eq_bind]
  rw [hname, Option.bind_some, hspace, Option.bind_some]
  dsimp only
  rw [hhref, Option.bind_some]

/-- The link of a mention is matched whole. -/
theorem anchorRe_anchorForUser {userId display : JsString} (hid : unit '"' ∉ userId)
    (hline : ∀ c ∈ display, isLineTerminator c = false) (t : JsString) :
    anchorRe (anchorForUser userId display ++ t) = some ⟨matrixUrlBase ++ userId, escapeHtml display, t⟩ := by
  have hopen : anchorForUser userId display ++ t =
      js "<a href=\"" ++ ((matrixUrlBase ++ userId) ++ unit '"' :: unit '>' :: (escapeHtml display ++ js "</a>" ++ t)) := by
    unfold anchorForUser
    simp [js]
  have hhref : ∀ x ∈ matrixUrlBase ++ userId, decide (x ≠ unit '"') = true := by
    intro x hx
    rw [decide_eq_true_iff]
    rintro rfl
    rcases List.mem_append.mp hx with hbase | hmem
    · exact absurd hbase (by decide)
    · exact hid hmem
  have hquoted := many1_append (p := fun x => decide (x ≠ unit '"')) (c := unit '"') hhref (by simp [matrixUrlBase, js])
    (by decide) (unit '>' :: (escapeHtml display ++ js "</a>" ++ t))
  have hclosed : untilClosing (escapeHtml display ++ js "</a>" ++ t) = some (escapeHtml display, t) := by
    apply untilClosing_append (lt_not_mem_escapeHtml display)
    intro c hc
    by_cases hterm : isLineTerminator c = true
    · exact hline c (mem_of_mem_escapeHtml hc hterm)
    · exact Bool.eq_false_iff.mpr hterm
  have hquote : ∀ s, afterText (js "\"") (unit '"' :: s) = some s := fun _ => rfl
  have hgt : ∀ s, afterText (js ">") ((unit '>' :: s).dropWhile (· ≠ unit '>')) = some s := fun _ => rfl
  rw [hopen, anchorRe_open, hquoted]
  simp only [Option.bind_eq_bind, Option.bind_some, hquote, hgt, hclosed]

theorem exec_append {plain : JsString} (h : unit '<' ∉ plain) (t : JsString) :
    exec (plain ++ t) = (exec t).map fun (chunk, m) => (plain ++ chunk, m) := by
  induction plain with
  | nil =>
    show exec t = _
    cases exec t with
    | none => rfl
    | some found => rfl
  | cons c plain ih =>
    rw [List.mem_cons, not_or] at h
    rw [List.cons_append, exec, anchorRe_eq_none (Ne.symm h.1), ih h.2]
    dsimp only
    rw [Option.map_map]
    rfl

/-! ## The runs of a message -/

theorem textRuns_escapeHtml (plain : JsString) : textRuns (escapeHtml plain) = pieceRun (escapeHtml plain) := by
  have hsplit : splitMatches brRe (escapeHtml plain) = [escapeHtml plain] :=
    splitMatches_eq_self (matches_nowhere (fun _ hc => brRe_eq_none hc) (lt_not_mem_escapeHtml plain))
  unfold textRuns
  rw [hsplit]
  rfl

theorem runsFrom_plain (n : ℕ) (plain : JsString) : runsFrom n (escapeHtml plain) = pieceRun (escapeHtml plain) := by
  have hnone : exec (escapeHtml plain) = none := by
    have h := exec_append (lt_not_mem_escapeHtml plain) []
    rwa [List.append_nil] at h
  cases n with
  | zero => exact textRuns_escapeHtml plain
  | succ n =>
    rw [runsFrom, hnone]
    exact textRuns_escapeHtml plain

theorem exec_anchorForUser {userId display : JsString} (hid : unit '"' ∉ userId)
    (hline : ∀ c ∈ display, isLineTerminator c = false) (t : JsString) :
    exec (anchorForUser userId display ++ t) = some ([], ⟨matrixUrlBase ++ userId, escapeHtml display, t⟩) := by
  have h := anchorRe_anchorForUser hid hline t
  have hcons : ∃ c rest, anchorForUser userId display ++ t = c :: rest := ⟨_, _, rfl⟩
  obtain ⟨c, rest, hcons⟩ := hcons
  rw [hcons] at h ⊢
  rw [exec, h]

theorem runsFrom_anchor {userId display : JsString} (hid : unit '"' ∉ userId)
    (hline : ∀ c ∈ display, isLineTerminator c = false) (n : ℕ) (plain t : JsString) :
    runsFrom (n + 1) (escapeHtml plain ++ (anchorForUser userId display ++ t)) =
      pieceRun (escapeHtml plain) ++ .link (unapos display) (matrixUrlBase ++ userId) :: runsFrom n t := by
  have hstrip : replaceMatches tagRe [] (escapeHtml display) = escapeHtml display :=
    replaceMatches_eq_self (matches_nowhere (fun _ hc => tagRe_eq_none hc) (lt_not_mem_escapeHtml display))
  rw [runsFrom, exec_append (lt_not_mem_escapeHtml plain), exec_anchorForUser hid hline]
  dsimp only [Option.map_some]
  rw [List.append_nil, textRuns_escapeHtml, hstrip, unescapeHtml_escapeHtml]

theorem link_not_mem_pieceRun {content href : JsString} (p : JsString) : HtmlRun.link content href ∉ pieceRun p := by
  unfold pieceRun
  by_cases hp : p = []
  · rw [if_pos hp]
    exact List.not_mem_nil
  · rw [if_neg hp]
    simp

theorem link_not_mem_pieceRuns {content href : JsString} : ∀ pieces, HtmlRun.link content href ∉ pieceRuns pieces
  | [] => List.not_mem_nil
  | [p] => link_not_mem_pieceRun p
  | p :: q :: pieces => by
    rw [pieceRuns, List.mem_append, List.mem_cons, not_or, not_or]
    · exact ⟨link_not_mem_pieceRun p, by simp, link_not_mem_pieceRuns (q :: pieces)⟩
    · simp

theorem no_lineTerminator_of_anchorRe {s : JsString} {m : AnchorMatch} (h : anchorRe s = some m) :
    ∀ c ∈ m.text, isLineTerminator c = false := by
  unfold anchorRe at h
  simp only [Option.bind_eq_bind, Option.bind_eq_some_iff] at h
  obtain ⟨_, -, _, -, _, -, _, -, _, -, _, -, ⟨text, rest⟩, hclosing, heq⟩ := h
  cases heq
  exact no_lineTerminator_of_untilClosing hclosing

theorem no_lineTerminator_of_exec : ∀ {html chunk : JsString} {m : AnchorMatch}, exec html = some (chunk, m) →
    ∀ c ∈ m.text, isLineTerminator c = false
  | [], _, _, h => by cases h
  | c :: html, chunk, m, h => by
    rw [exec] at h
    split at h
    next m' hmatch =>
      cases h
      exact no_lineTerminator_of_anchorRe hmatch
    next =>
      obtain ⟨⟨chunk', m'⟩, hrest, heq⟩ := Option.map_eq_some_iff.mp h
      cases heq
      exact no_lineTerminator_of_exec hrest

/-- The text of a link was matched by `.`, and reading entities adds no line terminator. -/
theorem no_lineTerminator_of_link {content href : JsString} : ∀ (n : ℕ) (html : JsString),
    .link content href ∈ runsFrom n html → ∀ c ∈ content, isLineTerminator c = false
  | 0, html, h => absurd h (link_not_mem_pieceRuns _)
  | n + 1, html, h => by
    rw [runsFrom] at h
    cases hexec : exec html with
    | none =>
      rw [hexec] at h
      exact absurd h (link_not_mem_pieceRuns _)
    | some found =>
      obtain ⟨chunk, m⟩ := found
      rw [hexec] at h
      rcases List.mem_append.mp h with hpieces | hrest
      · exact absurd hpieces (link_not_mem_pieceRuns _)
      · rcases List.mem_cons.mp hrest with hlink | hlater
        · cases hlink
          intro c hc
          by_cases hterm : isLineTerminator c = true
          · rcases mem_replaceMatches (mem_unescapeHtml hc hterm) with hmem | hnil
            · exact no_lineTerminator_of_exec hexec c hmem
            · cases hnil
          · exact Bool.eq_false_iff.mpr hterm
        · exact no_lineTerminator_of_link n m.rest hlater

end Mentions
