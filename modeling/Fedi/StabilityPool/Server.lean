import Fedi.Lib.Runs
import Fedi.StabilityPool.Transactions

/-!
# Stability pool: runs of the server

`Event` is one thing Fedimint hands to the module: a consensus item of a peer,
or an input or output of a transaction.  `Ledger` is the database together with
the amounts reported back to Fedimint so far; a run is a sequence of events that
all succeed, since Fedimint drops the database transaction of a failed one.
-/

namespace StabilityPool

open BTreeMaps Runs

inductive Event where
  | consensusItem (peerId : PeerId) (item : StabilityPoolConsensusItem)
  | input (txid : TransactionId) (input : StabilityPoolInput)
  | output (txid : TransactionId) (output : StabilityPoolOutput)

/-- The database, the msats outputs deposited and the msats inputs paid out. -/
structure Ledger where
  db : Db
  deposited : ℕ
  withdrawn : ℕ

def Ledger.initial : Ledger := ⟨Db.initial, 0, 0⟩

def applyEvent (C : Crypto) (cfg : StabilityPoolConfigConsensus) (st : Ledger) :
    Event → Res Ledger
  | .consensusItem peerId item => do
    let db ← processConsensusItem cfg st.db item peerId
    return { st with db := db }
  | .input txid input => do
    let r ← processInput C st.db txid input
    return { st with db := r.1, withdrawn := st.withdrawn + r.2.amount }
  | .output txid output => do
    let r ← processOutput C cfg st.db txid output
    return { st with db := r.1, deposited := st.deposited + r.2 }

/-- Run a sequence of events from the fresh database. -/
def runEvents (C : Crypto) (cfg : StabilityPoolConfigConsensus) (evs : List Event) : Res Ledger :=
  run (applyEvent C cfg) Ledger.initial evs

/-- Database states the server can be in. -/
def Reachable (C : Crypto) (cfg : StabilityPoolConfigConsensus) (db : Db) : Prop :=
  ∃ evs st, runEvents C cfg evs = .ok st ∧ st.db = db

/-- An invariant of the database that every call keeps holds of every reachable database. -/
theorem reachable_induction {C : Crypto} {cfg : StabilityPoolConfigConsensus} {P : Db → Prop}
    (h0 : P Db.initial)
    (hitem : ∀ db item peerId db', P db → processConsensusItem cfg db item peerId = .ok db' → P db')
    (hinput : ∀ db txid i r, P db → processInput C db txid i = .ok r → P r.1)
    (houtput : ∀ db txid o r, P db → processOutput C cfg db txid o = .ok r → P r.1) {db : Db}
    (h : Reachable C cfg db) : P db := by
  obtain ⟨evs, st, hrun, rfl⟩ := h
  refine run_invariant (P := fun st => P st.db) (fun st e st' hp hst => ?_) h0 hrun
  cases e with
  | consensusItem peerId item =>
    simp only [applyEvent, bind_eq_ok, pure_eq_ok] at hst
    obtain ⟨db', h1, rfl⟩ := hst
    exact hitem _ _ _ _ hp h1
  | input txid i =>
    simp only [applyEvent, bind_eq_ok, pure_eq_ok] at hst
    obtain ⟨r, h1, rfl⟩ := hst
    exact hinput _ _ _ _ hp h1
  | output txid o =>
    simp only [applyEvent, bind_eq_ok, pure_eq_ok] at hst
    obtain ⟨r, h1, rfl⟩ := hst
    exact houtput _ _ _ _ hp h1

/-! ## A small federation -/

/-- Toy hashes and signatures: key `k` signs message `m` as `m + k`. -/
def demoCrypto : Crypto where
  accountHash := fun a => a.pubKeys.foldl (· + ·) a.threshold
  requestHash := fun r => r.nonce
  xOnlyPublicKey := id
  verify := fun m signature key => decide (signature = m + key)

/-- Four guardians, three votes, collateral one to one. -/
def demoConfig : StabilityPoolConfigConsensus where
  consensusThreshold := 3
  collateralRatio := ⟨1, 1⟩
  minAllowedSeek := 100000
  minAllowedProvide := 100000
  maxAllowedProvideFeeRatePpb := 2000

/-- Three guardians vote for the same cycle. -/
def demoVotes (index : ℕ) (time : ℕ) (price : ℕ) : List Event :=
  [0, 1, 2].map fun peer => .consensusItem peer (.v0 ⟨index, time, price⟩)

def demoSeeker : Account := .single 7 .seeker

def demoProvider : Account := .single 8 .provider

/-- A first cycle, a seek and a provide of 100000 msats, and the cycle that locks them. -/
def demoOpening : List Event :=
  demoVotes 0 1000 10000000 ++
    [.output 1 (.v0 (.depositToSeek ⟨demoSeeker.id demoCrypto, 100000⟩)),
      .output 2 (.v0 (.depositToProvide ⟨demoProvider.id demoCrypto, 100000, ⟨0⟩⟩))] ++
    demoVotes 1 2000 10000000

end StabilityPool
