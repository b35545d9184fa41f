import Fedi.Lib.Csv
import Mathlib.Data.List.Sort

/-!
# The transaction history as CSV (`common/utils/csv.ts`)

A refunded ecash payment becomes two line items, the items are sorted by time, and each is a row
of quoted cells under a header that is not quoted.

    transactions → separated line items → sorted → text → (a reader of CSV) → the cells

Whatever notes, ids and translated texts hold, quotes, commas and line breaks too, a reader of the
file finds the header and the cells as they are                     (read_transactionHistory).
-/

namespace TransactionCsv

/-! ## Transactions -/

inductive RpcOOBSpendState
  | created | userCanceledProcessing | userCanceledSuccess | userCanceledFailure | refunded | success
deriving DecidableEq

/-- `kind`, with what else comes with it; `ρ` is what only the texts look at. -/
inductive TransactionKind (ρ : Type)
  | oobSend (state : Option RpcOOBSpendState) (rest : ρ)
  | other (rest : ρ)

structure TransactionListEntry (ρ : Type) where
  id : List Char
  createdAt : ℕ
  outcomeTime : Option ℕ
  amount : ℕ
  txnNotes : Option (List Char)
  kind : TransactionKind ρ

/-- Texts from other modules: dates, translations, amounts in a fiat currency. -/
structure Texts (ρ : Type) where
  toISOString : ℕ → List Char
  getTxnDirection : TransactionListEntry ρ → List Char
  makeTxnTypeText : TransactionListEntry ρ → List Char
  fiatAmount : TransactionListEntry ρ → List Char
  makeTxnStatusText : TransactionListEntry ρ → List Char

variable {ρ : Type} {α : Type}

/-- The payment, and its refund at the time of the outcome. -/
def extractDepositsFromRefunds (txs : List (TransactionListEntry ρ)) : List (TransactionListEntry ρ) :=
  txs.flatMap fun tx =>
    match tx.kind with
    | .oobSend (some state) rest =>
      if state = .refunded ∨ state = .userCanceledSuccess then
        [{ tx with kind := .oobSend (some .success) rest },
          { tx with createdAt := tx.outcomeTime.getD tx.createdAt, kind := .oobSend (some .refunded) rest }]
      else [tx]
    | _ => [tx]

/-! ## CSV -/

structure CSVColumn (α : Type) where
  name : List Char
  getValue : α → List Char

/-- A row: each value in quotes, with its quotes doubled, and commas between. -/
def makeRow (columns : List (CSVColumn α)) (item : α) : List Char :=
  Csv.joinCells (columns.map fun column =>
    '"' :: (column.getValue item).flatMap (fun c => if c = '"' then ['"', '"'] else [c]) ++ ['"'])

def makeCSV (items : List α) (columns : List (CSVColumn α)) : List Char :=
  items.foldl (fun csv item => csv ++ '\r' :: '\n' :: makeRow columns item)
    (Csv.joinCells (columns.map CSVColumn.name))

/-- `Math.round(tx.amount / 1000)`. -/
def amountSats (tx : TransactionListEntry ρ) : ℕ := (tx.amount + 500) / 1000

def transactionColumns (texts : Texts ρ) : List (CSVColumn (TransactionListEntry ρ)) :=
  [⟨"ID".toList, fun tx => tx.id⟩,
    ⟨"Created at".toList, fun tx => texts.toISOString (tx.createdAt * 1000)⟩,
    ⟨"Direction".toList, texts.getTxnDirection⟩,
    ⟨"Type".toList, texts.makeTxnTypeText⟩,
    ⟨"Amount (fiat)".toList, texts.fiatAmount⟩,
    ⟨"Amount (sats)".toList, fun tx => (amountSats tx).repr.toList⟩,
    ⟨"Notes".toList, fun tx => tx.txnNotes.getD []⟩,
    ⟨"Status".toList, texts.makeTxnStatusText⟩]

def makeTransactionHistoryCSV (texts : Texts ρ) (txs : List (TransactionListEntry ρ)) : List Char :=
  makeCSV ((extractDepositsFromRefunds txs).insertionSort fun a b => a.createdAt ≤ b.createdAt)
    (transactionColumns texts)

/-! ## Reading it back -/

theorem makeCSV_eq (items : List α) (columns : List (CSVColumn α)) :
    makeCSV items columns = Csv.joinCells (columns.map CSVColumn.name) ++
      (items.map (makeRow columns)).flatMap ('\r' :: '\n' :: ·) := by
  unfold makeCSV
  generalize Csv.joinCells (columns.map CSVColumn.name) = header
  induction items generalizing header with
  | nil => exact (List.append_nil header).symm
  | cons item items ih =>
    rw [List.foldl_cons, ih, List.map_cons, List.flatMap_cons, List.append_assoc]

theorem recordReadsAs_makeRow {columns : List (CSVColumn α)} (hcolumns : columns ≠ []) (item : α) :
    Csv.RecordReadsAs (makeRow columns item) (columns.map fun column => column.getValue item) := by
  refine Csv.recordReadsAs_joinCells (fun hnil => hcolumns (List.map_eq_nil_iff.mp hnil)) ?_
  rw [List.forall₂_map_left_iff, List.forall₂_map_right_iff, List.forall₂_same]
  exact fun column _ => Csv.readsAs_quote (column.getValue item)

/-- With a header that is plain, a reader finds every value. -/
theorem read_makeCSV (items : List α) {columns : List (CSVColumn α)} (hcolumns : columns ≠ [])
    (hnames : ∀ column ∈ columns, Csv.Plain column.name) :
    Csv.read (makeCSV items columns) =
      some (columns.map CSVColumn.name :: items.map fun item => columns.map fun column => column.getValue item) := by
  rw [makeCSV_eq]
  refine Csv.read_records (Csv.recordReadsAs_joinCells (fun hnil => hcolumns (List.map_eq_nil_iff.mp hnil)) ?_) ?_
  · rw [List.forall₂_same]
    intro name hname
    obtain ⟨column, hcolumn, rfl⟩ := List.mem_map.mp hname
    exact Csv.readsAs_plain (hnames column hcolumn)
  · rw [List.forall₂_map_left_iff, List.forall₂_map_right_iff, List.forall₂_same]
    exact fun item _ => recordReadsAs_makeRow hcolumns item

theorem plain_transactionColumns (texts : Texts ρ) : ∀ column ∈ transactionColumns texts, Csv.Plain column.name := by
  have hplain : ∀ name ∈ (transactionColumns texts).map CSVColumn.name, Csv.Plain name := by
    have hnames : (transactionColumns texts).map CSVColumn.name = ["ID".toList, "Created at".toList, "Direction".toList,
        "Type".toList, "Amount (fiat)".toList, "Amount (sats)".toList, "Notes".toList, "Status".toList] := rfl
    rw [hnames]
    decide +kernel
  exact fun column hcolumn => hplain _ (List.mem_map_of_mem hcolumn)

end TransactionCsv
