import Fedi.Mentions.Parsing

/-!
# Mentions there and back (`ui/common/utils/matrix.ts`)

The formatted body of `parseMentionsFromText` is read by `splitHtmlRuns`.

    the runs are the text and the mentions of the reading, `&apos;` read as "'"                        (runsFrom_html)
    text and links come back iff there is no `&apos;` and no mentioned name has a line terminator  (roundTrips_iff)
-/

namespace Mentions

open Replacing

/-! ## What is promised -/

/-- The body with each recognised mention replaced by `@` and the name of the member. -/
def Reading.text (r : Reading) : JsString := (r.mentions.flatMap fun (plain, m) => plain ++ m.display) ++ r.tail

def Reading.links (r : Reading) : List HtmlRun := r.mentions.map fun (_, m) => .link m.display (matrixUrlBase ++ m.member.id)

/-- The runs of the formatted body have the text of the body, and its mentions as links. -/
structure RoundTrips (lower : JsString → JsString) (body : JsString) (roomMembers : List MatrixRoomMember) : Prop where
  text : (splitHtmlRuns (parseMentionsFromText lower body roomMembers).formattedBody).flatMap HtmlRun.content =
    (reading lower body roomMembers).text
  links : (splitHtmlRuns (parseMentionsFromText lower body roomMembers).formattedBody).filter HtmlRun.isLink =
    (reading lower body roomMembers).links

/-! ## When it is kept -/

/-- There is no `&apos;` in the text or in the name of a mentioned member, and no line terminator in the latter. -/
structure Reading.Clean (r : Reading) : Prop where
  plain : ∀ pm ∈ r.mentions, ¬ apos <:+: pm.1
  tail : ¬ apos <:+: r.tail
  names : ∀ pm ∈ r.mentions, ¬ apos <:+: pm.2.member.label
  lines : ∀ pm ∈ r.mentions, ∀ c ∈ pm.2.member.label, isLineTerminator c = false

/-! ## The runs of a reading -/

variable {r : Reading}

/-- The stretches of text that are written and read on their own. -/
def Reading.stretches (r : Reading) : List JsString := (r.mentions.flatMap fun (plain, m) => [plain, m.display]) ++ [r.tail]

theorem text_eq (r : Reading) : r.text = r.stretches.flatten := by
  obtain ⟨mentions, tail⟩ := r
  unfold Reading.text Reading.stretches
  induction mentions with
  | nil => simp
  | cons pm mentions ih => simpa using ih

theorem content_pieceRun (plain : JsString) : (pieceRun (escapeHtml plain)).flatMap HtmlRun.content = unapos plain := by
  unfold pieceRun
  by_cases hnil : escapeHtml plain = []
  · rw [if_pos hnil, ← unescapeHtml_escapeHtml, hnil]
    rfl
  · rw [if_neg hnil, List.flatMap_singleton]
    exact unescapeHtml_escapeHtml plain

theorem links_pieceRun (p : JsString) : (pieceRun p).filter HtmlRun.isLink = [] := by
  unfold pieceRun
  by_cases hnil : p = []
  · rw [if_pos hnil]
    rfl
  · rw [if_neg hnil]
    rfl

/-- The runs that a reading is read back as. -/
def Reading.runs (r : Reading) : List HtmlRun :=
  (r.mentions.flatMap fun (plain, m) =>
    pieceRun (escapeHtml plain) ++ [.link (unapos m.display) (matrixUrlBase ++ m.member.id)]) ++
      pieceRun (escapeHtml r.tail)

theorem runsFrom_html (hids : ∀ pm ∈ r.mentions, unit '"' ∉ pm.2.member.id)
    (hlines : ∀ pm ∈ r.mentions, ∀ c ∈ pm.2.display, isLineTerminator c = false) {n : ℕ} (hn : r.mentions.length ≤ n) :
    runsFrom n r.html = r.runs := by
  obtain ⟨mentions, tail⟩ := r
  induction mentions generalizing n with
  | nil => exact runsFrom_plain n tail
  | cons pm mentions ih =>
    obtain ⟨plain, m⟩ := pm
    rw [List.forall_mem_cons] at hids hlines
    obtain ⟨k, rfl⟩ : ∃ k, n = k + 1 := ⟨n - 1, by simp at hn; omega⟩
    have hrest := ih hids.2 hlines.2 (n := k) (by simpa using hn)
    have hhtml : Reading.html ⟨(plain, m) :: mentions, tail⟩ =
        escapeHtml plain ++ (anchorForUser m.member.id m.display ++ Reading.html ⟨mentions, tail⟩) := by
      simp only [Reading.html, List.flatMap_cons, List.append_assoc]
      rfl
    rw [hhtml, runsFrom_anchor hids.1 hlines.1, hrest]
    simp only [Reading.runs, List.flatMap_cons, List.append_assoc, List.cons_append, List.nil_append]

theorem content_runs (r : Reading) : r.runs.flatMap HtmlRun.content = (r.stretches.map unapos).flatten := by
  obtain ⟨mentions, tail⟩ := r
  unfold Reading.runs Reading.stretches
  induction mentions with
  | nil => simpa using content_pieceRun tail
  | cons pm mentions ih =>
    simp only [List.flatMap_cons, List.flatMap_append, List.append_assoc, List.map_append, List.flatten_append,
      content_pieceRun] at ih ⊢
    rw [ih]
    simp [HtmlRun.content]

theorem links_runs (r : Reading) :
    r.runs.filter HtmlRun.isLink = r.mentions.map fun (_, m) => .link (unapos m.display) (matrixUrlBase ++ m.member.id) := by
  obtain ⟨mentions, tail⟩ := r
  unfold Reading.runs
  induction mentions with
  | nil => simpa using links_pieceRun _
  | cons pm mentions ih =>
    simp only [List.flatMap_cons, List.filter_append, List.append_assoc, links_pieceRun, List.nil_append] at ih ⊢
    rw [ih]
    rfl

/-- Each mention takes some of the formatted body. -/
theorem length_mentions_le (r : Reading) : r.mentions.length ≤ r.html.length := by
  obtain ⟨mentions, tail⟩ := r
  induction mentions with
  | nil => simp
  | cons pm mentions ih =>
    have hpos : 0 < pm.2.html.length := by
      unfold Mention.html anchorForUser
      simp [js]
    simp only [Reading.html, List.flatMap_cons, List.length_append, List.length_cons] at ih ⊢
    omega

/-! ## Reading `&apos;` -/

/-- Reading `&apos;` makes a text shorter, so the texts come back together iff each does. -/
theorem flatten_unapos_iff (l : List JsString) : (l.map unapos).flatten = l.flatten ↔ ∀ s ∈ l, ¬ apos <:+: s := by
  have hshorter : (js "'").length < apos.length := by decide
  constructor
  · intro h
    have hlen := congrArg List.length h
    clear h
    have hle : ∀ l : List JsString, (l.map unapos).flatten.length ≤ l.flatten.length := by
      intro l
      induction l with
      | nil => simp
      | cons s l ih =>
        have hs := (length_replaceAll hshorter s).1
        simp only [List.map_cons, List.flatten_cons, List.length_append]
        exact Nat.add_le_add hs ih
    induction l with
    | nil => simp
    | cons s l ih =>
      have hs := length_replaceAll hshorter s
      have hl := hle l
      simp only [List.map_cons, List.flatten_cons, List.length_append] at hlen
      rw [List.forall_mem_cons]
      constructor
      · intro hinfix
        have hlt : (unapos s).length < s.length := hs.2 hinfix
        omega
      · apply ih
        have hle' : (unapos s).length ≤ s.length := hs.1
        omega
  · intro h
    have hsame : ∀ s ∈ l, unapos s = id s := fun s hs => replaceAll_eq_self (h s hs)
    rw [List.map_congr_left hsame, List.map_id]

theorem apos_display (m : Mention) : apos <:+: m.display ↔ apos <:+: m.member.label := by
  unfold Mention.display
  rw [List.infix_cons_iff]
  constructor
  · intro h
    refine h.resolve_left ?_
    intro hbegins
    exact absurd (List.cons_prefix_cons.mp hbegins).1 (by decide)
  · exact .inr

theorem lines_display (m : Mention) : (∀ c ∈ m.display, isLineTerminator c = false) ↔
    ∀ c ∈ m.member.label, isLineTerminator c = false := by
  unfold Mention.display
  rw [List.forall_mem_cons]
  exact ⟨fun h => h.2, fun h => ⟨by decide, h⟩⟩

theorem stretches_iff (r : Reading) : (∀ s ∈ r.stretches, ¬ apos <:+: s) ↔
    (∀ pm ∈ r.mentions, ¬ apos <:+: pm.1) ∧ ¬ apos <:+: r.tail ∧ ∀ pm ∈ r.mentions, ¬ apos <:+: pm.2.member.label := by
  unfold Reading.stretches
  simp only [List.forall_mem_append, List.forall_mem_flatMap, List.forall_mem_singleton, List.forall_mem_cons, apos_display]
  constructor
  · rintro ⟨hmentions, htail⟩
    exact ⟨fun pm hpm => (hmentions pm hpm).1, htail, fun pm hpm => (hmentions pm hpm).2⟩
  · rintro ⟨hplain, htail, hnames⟩
    exact ⟨fun pm hpm => ⟨hplain pm hpm, hnames pm hpm⟩, htail⟩

/-! ## Main result -/

/-- Text and links come back iff the reading is clean. -/
theorem roundTrips_iff (lower : JsString → JsString) (body : JsString) (roomMembers : List MatrixRoomMember)
    (hids : ∀ m ∈ roomMembers, unit '"' ∉ m.id) :
    RoundTrips lower body roomMembers ↔ (reading lower body roomMembers).Clean := by
  have hmembers := member_of_reading lower body roomMembers
  have hbody := formattedBody_eq lower body roomMembers
  have hruns : (∀ pm ∈ (reading lower body roomMembers).mentions, ∀ c ∈ pm.2.display, isLineTerminator c = false) →
      splitHtmlRuns (parseMentionsFromText lower body roomMembers).formattedBody =
        (reading lower body roomMembers).runs := by
    intro hlines
    rw [hbody]
    exact runsFrom_html (fun pm hpm => hids _ (hmembers pm hpm)) hlines (length_mentions_le _)
  constructor
  · intro h
    have hlines : ∀ pm ∈ (reading lower body roomMembers).mentions, ∀ c ∈ pm.2.display, isLineTerminator c = false := by
      intro pm hpm
      have hlink : .link pm.2.display (matrixUrlBase ++ pm.2.member.id) ∈ (reading lower body roomMembers).links :=
        List.mem_map.mpr ⟨pm, hpm, rfl⟩
      rw [← h.links] at hlink
      exact no_lineTerminator_of_link _ _ (List.mem_of_mem_filter hlink)
    have htext := h.text
    rw [hruns hlines, content_runs, text_eq, flatten_unapos_iff, stretches_iff] at htext
    obtain ⟨hplain, htail, hnames⟩ := htext
    exact ⟨hplain, htail, hnames, fun pm hpm => (lines_display pm.2).mp (hlines pm hpm)⟩
  · intro h
    have hlines := hruns fun pm hpm => (lines_display pm.2).mpr (h.lines pm hpm)
    constructor
    · rw [hlines, content_runs, text_eq, flatten_unapos_iff, stretches_iff]
      exact ⟨h.plain, h.tail, h.names⟩
    · rw [hlines, links_runs]
      unfold Reading.links
      apply List.map_congr_left
      intro pm hpm
      have hname : ¬ apos <:+: pm.2.display := fun hinfix => h.names pm hpm ((apos_display pm.2).mp hinfix)
      show HtmlRun.link (unapos pm.2.display) _ = .link pm.2.display _
      rw [unapos, replaceAll_eq_self hname]

/-- Bob is mentioned, and his mention comes back. -/
theorem roundTrips_bob :
    let lower : JsString → JsString := fun s => s.map fun c => if unit 'A' ≤ c ∧ c ≤ unit 'Z' then c + 32 else c
    (reading lower (js "a<b @Bob, ok") [⟨js "@b:x", some (js "Bob")⟩]).mentions.length = 1 ∧
      RoundTrips lower (js "a<b @Bob, ok") [⟨js "@b:x", some (js "Bob")⟩] := by
  intro lower
  have hlabel : ∀ pm ∈ (reading lower (js "a<b @Bob, ok") [⟨js "@b:x", some (js "Bob")⟩]).mentions,
      pm.2.member.label = [66, 111, 98] := by decide +kernel
  refine ⟨by decide +kernel, (roundTrips_iff lower _ _ (by decide)).mpr ⟨?_, ?_, ?_, ?_⟩⟩
  · decide +kernel
  · decide +kernel
  · decide +kernel
  · intro pm hpm
    rw [hlabel pm hpm]
    simp [isLineTerminator]

/-- A body that says `&apos;` comes back with "'" in its place. -/
theorem apos_is_lost : ¬ ∀ (lower : JsString → JsString) (body : JsString) (roomMembers : List MatrixRoomMember),
    (∀ s, (lower s).length = s.length) → (∀ m ∈ roomMembers, unit '"' ∉ m.id) → RoundTrips lower body roomMembers := by
  intro hall
  have htext := (hall id (js "&apos;") [] (fun _ => rfl) (by simp)).text
  exact absurd htext (by decide)

end Mentions
