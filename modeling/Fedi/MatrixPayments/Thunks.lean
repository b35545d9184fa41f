import Fedi.Lib.Tasks
import Fedi.MatrixPayments.Events

/-!
# Claiming and reclaiming ecash

A check dispatches a thunk for every payment that it marks.  A claim receives the ecash and
tells the room; a reclaim looks up the transaction and dispatches another thunk that cancels
the ecash, without waiting for it.  A thunk that throws frees the payment for the next check.

    claimMatrixPayment:        receiveEcash → sendMessage → markRoomAsUnread
    tryReclaimMatrixPayment:   getTransaction → (resolved)
    cancelEcash:                                parseEcash → cancelEcash
-/

namespace MatrixPayments

open Tasks

/-! ## State -/

inductive Kind
  | claim
  | reclaim
deriving DecidableEq

structure Attempt where
  kind : Kind
  event : MatrixPaymentEvent
deriving DecidableEq

/-- The set that all checks share, and the messages and cancellations so far.  The rest is not part of the code:
the rejected payments that checks found, the attempts whose `receiveEcash` or `cancelEcash` failed and that no check
has made again, and those that a check found again and did not make. -/
structure System where
  receivedPayments : Finset String
  sent : List (String × RpcPaymentMessageContent)
  reclaimed : List (Option String)
  rejected : List MatrixPaymentEvent
  failed : List Attempt
  skipped : List Attempt

def System.initial : System := ⟨∅, [], [], [], [], []⟩

/-- Where a thunk waits. -/
inductive Task
  | checking
  | claimStarting (event : MatrixPaymentEvent)
  | receivingEcash (event : MatrixPaymentEvent)
  | sendingMessage (event : MatrixPaymentEvent) (receiverOperationId : Option String)
  | markingUnread (event : MatrixPaymentEvent)
  | reclaimStarting (event : MatrixPaymentEvent)
  | gettingTransaction (event : MatrixPaymentEvent)
  | parsingEcash (event : MatrixPaymentEvent)
  | cancelingEcash (event : MatrixPaymentEvent)

/-- The payment that a thunk is an attempt for. -/
def Task.paymentId? : Task → Option String
  | .checking => none
  | .claimStarting event | .receivingEcash event | .sendingMessage event _ | .markingUnread event
  | .reclaimStarting event | .gettingTransaction event | .parsingEcash event | .cancelingEcash event =>
    some event.paymentId

/-- The redux state when a thunk starts, and what the bridge answers. -/
structure Input where
  myId : Option String
  timeline : List (Option MatrixEvent)
  walletFederations : List LoadedFederation
  fails : Bool
  receiverOperationId : Option String
  /-- The transaction's kind is `oobSend`. -/
  oobSend : Bool
  /-- The ecash is from a joined federation. -/
  joined : Bool

/-! ## Steps -/

/-- The payment is free for the next check. -/
def System.free (s : System) (event : MatrixPaymentEvent) : System :=
  { s with receivedPayments := s.receivedPayments.erase event.paymentId }

def System.fail (s : System) (kind : Kind) (event : MatrixPaymentEvent) : System :=
  { s with failed := s.failed ++ [⟨kind, event⟩] }

/-- The attempt's payment is among these. -/
def Attempt.among (a : Attempt) (claims reclaims : List MatrixPaymentEvent) : Bool :=
  (match a.kind with
    | .claim => claims
    | .reclaim => reclaims).any fun event => decide (event.paymentId = a.event.paymentId)

def check (s : System) (myId : String) (input : Input) : System × List Task :=
  let r := checkForReceivablePayments myId input.walletFederations input.timeline s.receivedPayments
  let receivable := getReceivablePaymentEvents myId input.walletFederations input.timeline
  let reclaimable := getReclaimablePaymentEvents myId input.walletFederations input.timeline
  ({ s with
      receivedPayments := r.receivedPayments
      rejected := s.rejected ++ reclaimable
      failed := s.failed.filter fun a => !a.among r.claims r.reclaims
      skipped := s.skipped ++ s.failed.filter fun a => a.among receivable reclaimable && !a.among r.claims r.reclaims },
    r.claims.map .claimStarting ++ r.reclaims.map .reclaimStarting)

/-- One thunk runs to its next await. -/
def run (s : System) (task : Task) (input : Input) : System × List Task :=
  match task with
  | .checking =>
    match input.myId with
    | none => (s, [])
    | some myId => check s myId input
  | .claimStarting event =>
    if input.myId = none ∨ given event.content.ecash = false ∨ given event.content.federationId = false then
      (s.free event, [])
    else (s, [.receivingEcash event])
  | .receivingEcash event =>
    if input.fails then ((s.free event).fail .claim event, [])
    else (s, [.sendingMessage event input.receiverOperationId])
  | .sendingMessage event receiverOperationId =>
    if input.fails then (s.free event, [])
    else
      let received := { event.content with
        body := "Payment received."
        status := .received
        receiverOperationId := receiverOperationId }
      ({ s with sent := s.sent ++ [(event.roomId, received)] }, [.markingUnread event])
  | .markingUnread event => if input.fails then (s.free event, []) else (s, [])
  | .reclaimStarting event =>
    if given event.content.ecash = false ∨ given event.content.federationId = false ∨
        given event.content.senderOperationId = false ∨ event.content.status ≠ .rejected then
      (s, [])
    else (s, [.gettingTransaction event])
  | .gettingTransaction event =>
    if input.fails then (s.free event, [])
    -- the cancellation is dispatched, and nobody waits for it
    else if input.oobSend then (s, [.parsingEcash event])
    else (s, [])
  | .parsingEcash event =>
    if input.fails ∨ input.joined = false then (s.fail .reclaim event, []) else (s, [.cancelingEcash event])
  | .cancelingEcash event =>
    if input.fails then (s.fail .reclaim event, [])
    else ({ s with reclaimed := s.reclaimed ++ [event.content.ecash] }, [])

def start : Unit → Task := fun _ => .checking

/-- The payments after a run of checks. -/
def payments (es : List (Event Unit Input)) : Pool System Task := pool start run ⟨System.initial, []⟩ es

end MatrixPayments
