import Mathlib.Data.List.Basic

/-!
# Comma-separated values

A reader of records that end with a line break of two characters, of cells that are plain or in
quotes, where a quote in a quoted cell is written twice.  What a text reads as is put together
from its pieces: a cell, a record, records.

    read (cells of records, plain or quoted) = the records              (read_records)
-/

namespace Csv

inductive Mode
  /-- Nothing of the cell is read. -/
  | start
  | plain
  | quoted
  /-- After a quote in a quoted cell. -/
  | quote
  | carriageReturn
deriving DecidableEq

structure Reader where
  records : List (List (List Char))
  record : List (List Char)
  cell : List Char
  mode : Mode

def Reader.endCell (r : Reader) : Reader := { r with record := r.record ++ [r.cell], cell := [], mode := .start }

def Reader.endRecord (r : Reader) : Reader :=
  { r with records := r.records ++ [r.record ++ [r.cell]], record := [], cell := [], mode := .start }

def Reader.step (r : Reader) (c : Char) : Option Reader :=
  match r.mode with
  | .quoted => some (if c = '"' then { r with mode := .quote } else { r with cell := r.cell ++ [c] })
  | .carriageReturn => if c = '\n' then some r.endRecord else none
  | .quote =>
    if c = '"' then some { r with cell := r.cell ++ [c], mode := .quoted }
    else if c = ',' then some r.endCell
    else if c = '\r' then some { r with mode := .carriageReturn }
    else none
  | .start =>
    if c = '"' then some { r with mode := .quoted }
    else if c = ',' then some r.endCell
    else if c = '\r' then some { r with mode := .carriageReturn }
    else if c = '\n' then none
    else some { r with cell := r.cell ++ [c], mode := .plain }
  | .plain =>
    if c = ',' then some r.endCell
    else if c = '\r' then some { r with mode := .carriageReturn }
    else if c = '"' ∨ c = '\n' then none
    else some { r with cell := r.cell ++ [c] }

/-- The end of the text ends the last record. -/
def Reader.finish (r : Reader) : Option (List (List (List Char))) :=
  if r.mode = .quoted ∨ r.mode = .carriageReturn then none else some r.endRecord.records

def read (text : List Char) : Option (List (List (List Char))) :=
  (text.foldlM Reader.step ⟨[], [], [], .start⟩).bind Reader.finish

/-- Each quote twice. -/
def escape (value : List Char) : List Char := value.flatMap fun c => if c = '"' then ['"', '"'] else [c]

def quote (value : List Char) : List Char := '"' :: escape value ++ ['"']

/-- No character that ends a cell or quotes one. -/
def Plain (value : List Char) : Prop := ∀ c ∈ value, c ≠ '"' ∧ c ≠ ',' ∧ c ≠ '\r' ∧ c ≠ '\n'

instance (value : List Char) : Decidable (Plain value) :=
  List.decidableBAll (fun c => c ≠ '"' ∧ c ≠ ',' ∧ c ≠ '\r' ∧ c ≠ '\n') value

/-! ## Cells -/

/-- After a cell, plain or quoted. -/
def Mode.Between (m : Mode) : Prop := m = .start ∨ m = .plain ∨ m = .quote

/-- The text is a cell of this value: read from its start, it leaves the value. -/
def ReadsAs (text value : List Char) : Prop := ∀ r : Reader, r.mode = .start → r.cell = [] →
  ∃ m, Mode.Between m ∧ text.foldlM Reader.step r = some { r with cell := value, mode := m }

section
variable {r : Reader} {text value : List Char}

theorem foldlM_escape (value : List Char) (r : Reader) (hr : r.mode = .quoted) :
    (escape value).foldlM Reader.step r = some { r with cell := r.cell ++ value } := by
  induction value generalizing r with
  | nil =>
    rw [List.append_nil]
    rfl
  | cons c value ih =>
    have hcell : (if c = '"' then ['"', '"'] else [c]).foldlM Reader.step r =
        some { r with cell := r.cell ++ [c] } := by
      by_cases hc : c = '"'
      · subst hc
        simp [Reader.step, hr]
      · simp [Reader.step, hr, hc]
    have hescape : escape (c :: value) = (if c = '"' then ['"', '"'] else [c]) ++ escape value := rfl
    rw [hescape, List.foldlM_append, hcell]
    show (escape value).foldlM Reader.step { r with cell := r.cell ++ [c] } = _
    rw [ih { r with cell := r.cell ++ [c] } hr]
    simp

theorem readsAs_quote (value : List Char) : ReadsAs (quote value) value := by
  intro r hmode hcell
  refine ⟨.quote, .inr (.inr rfl), ?_⟩
  have hopened : r.step '"' = some { r with mode := .quoted } := by simp [Reader.step, hmode]
  unfold quote
  rw [List.cons_append, List.foldlM_cons, hopened]
  show (escape value ++ ['"']).foldlM Reader.step { r with mode := .quoted } = _
  rw [List.foldlM_append, foldlM_escape value _ rfl, hcell]
  rfl

/-- Plain characters go on with a plain cell. -/
theorem foldlM_plain (hvalue : Plain value) (r : Reader) (hr : r.mode = .plain) :
    value.foldlM Reader.step r = some { r with cell := r.cell ++ value } := by
  induction value generalizing r with
  | nil =>
    rw [List.append_nil]
    rfl
  | cons c value ih =>
    obtain ⟨hquote, hcomma, hreturn, hline⟩ := hvalue c List.mem_cons_self
    have hstep : r.step c = some { r with cell := r.cell ++ [c] } := by
      simp [Reader.step, hr, hquote, hcomma, hreturn, hline]
    rw [List.foldlM_cons, hstep]
    show value.foldlM Reader.step { r with cell := r.cell ++ [c] } = _
    rw [ih (fun c' hc' => hvalue c' (List.mem_cons_of_mem _ hc')) { r with cell := r.cell ++ [c] } hr]
    simp

theorem readsAs_plain (hvalue : Plain value) : ReadsAs value value := by
  intro r hmode hcell
  cases value with
  | nil =>
    obtain ⟨records, record, cell, mode⟩ := r
    subst hmode hcell
    exact ⟨.start, .inl rfl, rfl⟩
  | cons c value =>
    refine ⟨.plain, .inr (.inl rfl), ?_⟩
    obtain ⟨hquote, hcomma, hreturn, hline⟩ := hvalue c List.mem_cons_self
    have hstep : r.step c = some { r with cell := [c], mode := .plain } := by
      simp [Reader.step, hmode, hcell, hquote, hcomma, hreturn, hline]
    rw [List.foldlM_cons, hstep]
    show value.foldlM Reader.step { r with cell := [c], mode := .plain } = _
    rw [foldlM_plain (fun c' hc' => hvalue c' (List.mem_cons_of_mem _ hc')) _ rfl]
    rfl

/-! ## Records -/

theorem step_comma {m : Mode} (hm : m.Between) : { r with cell := value, mode := m }.step ',' =
    some { r with record := r.record ++ [value], cell := [], mode := .start } := by
  rcases hm with rfl | rfl | rfl <;> rfl

theorem step_lineBreak {m : Mode} (hm : m.Between) : ['\r', '\n'].foldlM Reader.step { r with cell := value, mode := m } =
    some ⟨r.records ++ [r.record ++ [value]], [], [], .start⟩ := by
  rcases hm with rfl | rfl | rfl <;> rfl

/-- The cells of a record with commas between. -/
def joinCells (cells : List (List Char)) : List Char := List.intercalate [','] cells

theorem joinCells_cons {cells : List (List Char)} (h : cells ≠ []) :
    joinCells (text :: cells) = text ++ ',' :: joinCells cells := by
  obtain ⟨next, cells, rfl⟩ := List.exists_cons_of_ne_nil h
  simp [joinCells, List.intercalate]

/-- The text is the start of a record of these values: the last of them is the cell that is open. -/
def RecordReadsAs (text : List Char) (values : List (List Char)) : Prop :=
  ∀ records record, ∃ earlier last m, values = earlier ++ [last] ∧ Mode.Between m ∧
    text.foldlM Reader.step ⟨records, record, [], .start⟩ = some ⟨records, record ++ earlier, last, m⟩

theorem recordReadsAs_joinCells {cells values : List (List Char)} (hcells : cells ≠ [])
    (h : List.Forall₂ ReadsAs cells values) : RecordReadsAs (joinCells cells) values := by
  induction h with
  | nil => exact absurd rfl hcells
  | @cons text value cells values hread hrest ih =>
    intro records record
    obtain ⟨m, hm, hcell⟩ := hread ⟨records, record, [], .start⟩ rfl rfl
    by_cases hlast : cells = []
    · subst hlast
      cases hrest
      refine ⟨[], value, m, rfl, hm, ?_⟩
      rw [List.append_nil, ← hcell]
      simp [joinCells, List.intercalate]
    · obtain ⟨earlier, last, m', rfl, hm', hread'⟩ := ih hlast records (record ++ [value])
      refine ⟨value :: earlier, last, m', rfl, hm', ?_⟩
      rw [joinCells_cons hlast, List.foldlM_append, hcell]
      show (',' :: joinCells cells).foldlM Reader.step { (⟨records, record, [], .start⟩ : Reader) with
        cell := value, mode := m } = _
      rw [List.foldlM_cons, step_comma hm]
      show (joinCells cells).foldlM Reader.step ⟨records, record ++ [value], [], .start⟩ = _
      rw [hread', List.append_assoc]
      rfl

/-- Records with line breaks between, and none after the last, are read as they are. -/
theorem read_records {first : List Char} {firstValues : List (List Char)} {texts : List (List Char)}
    {records : List (List (List Char))} (hfirst : RecordReadsAs first firstValues)
    (h : List.Forall₂ RecordReadsAs texts records) :
    read (first ++ texts.flatMap ('\r' :: '\n' :: ·)) = some (firstValues :: records) := by
  have hrest : ∀ (texts : List (List Char)) (records before : List (List (List Char))) (earlier : List (List Char))
      (last : List Char) (m : Mode), List.Forall₂ RecordReadsAs texts records → m.Between →
      ((texts.flatMap ('\r' :: '\n' :: ·)).foldlM Reader.step ⟨before, earlier, last, m⟩).bind Reader.finish =
        some (before ++ (earlier ++ [last]) :: records) := by
    intro texts records before earlier last m h
    induction h generalizing before earlier last m with
    | nil => rintro (rfl | rfl | rfl) <;> rfl
    | @cons text values texts records hread _ ih =>
      intro hm
      obtain ⟨earlier', last', m', rfl, hm', hread'⟩ := hread (before ++ [earlier ++ [last]]) []
      have hbreak : ['\r', '\n'].foldlM Reader.step ⟨before, earlier, last, m⟩ =
          some ⟨before ++ [earlier ++ [last]], [], [], .start⟩ := 
        @step_lineBreak ⟨before, earlier, [], .start⟩ last m hm
      rw [List.flatMap_cons, show ('\r' :: '\n' :: text) = ['\r', '\n'] ++ text from rfl, List.append_assoc,
        List.foldlM_append, hbreak]
      show ((text ++ texts.flatMap ('\r' :: '\n' :: ·)).foldlM Reader.step
        ⟨before ++ [earlier ++ [last]], [], [], .start⟩).bind Reader.finish = _
      rw [List.foldlM_append, hread']
      show ((texts.flatMap ('\r' :: '\n' :: ·)).foldlM Reader.step
        ⟨before ++ [earlier ++ [last]], [] ++ earlier', last', m'⟩).bind Reader.finish = _
      rw [ih _ _ _ _ hm']
      simp
  obtain ⟨earlier, last, m, rfl, hm, hread⟩ := hfirst [] []
  unfold read
  rw [List.foldlM_append, hread]
  exact hrest texts records [] ([] ++ earlier) last m h hm

end

end Csv
