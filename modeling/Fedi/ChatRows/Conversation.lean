import Mathlib.Data.List.Sort
import Mathlib.Tactic

/-!
# The rows of a conversation (`common/utils/chatConversationRows.ts`)

One loop over the events, newest first, counts time groups and runs of one sender; a second
and a third find the messages around each row; the last makes the flags from the counters.

    flags:   showTimestamp | showUsername | showAvatar, isLastBubbleInRun | showUsernames
    of:      time group      oldest of run  newest of run                   whole time group

The counters are gone from what the rows mean: a flag depends on the events between two
messages only, with neighbours at most a minute apart                             (row_meaning).
-/

namespace ChatRows

/-! ## Events -/

inductive RpcRoomMembershipChange
  | none | error | joined | left | banned | unbanned | kicked | invited | kickedAndBanned | invitationAccepted
  | invitationRejected | invitationRevoked | knocked | knockAccepted | knockRetracted | knockDenied | notImplemented
deriving DecidableEq

/-- By `msgtype`; of the others nothing is read. -/
inductive MatrixEventContent
  | roomMember (change : Option RpcRoomMembershipChange)
  | multispend
  | other (msgtype : String)
deriving DecidableEq

structure MatrixEvent where
  id : String
  sender : String
  timestamp : ℕ
  content : MatrixEventContent
deriving DecidableEq

inductive ChatType
  | direct | group
deriving DecidableEq

def isJoinedRoomMemberEvent (event : MatrixEvent) : Bool :=
  match event.content with
  | .roomMember change => decide (change = some .joined) || decide (change = some .invitationAccepted)
  | _ => false

def isMultispendEvent (event : MatrixEvent) : Bool := decide (event.content = .multispend)

/-! ## Rows -/

inductive ChatConversationRowLayout
  | message | systemNotice
deriving DecidableEq

structure ChatConversationRow where
  event : MatrixEvent
  layout : ChatConversationRowLayout
  showTimestamp : Bool
  showUsername : Bool
  showAvatar : Bool
  showUsernames : Bool
  isLastBubbleInRun : Bool
deriving DecidableEq

structure DerivedEvent where
  event : MatrixEvent
  layout : ChatConversationRowLayout
  timeGroupId : ℕ
  senderRunId : Option ℕ

/-- `CHAT_GROUP_WINDOW_MS`. -/
def chatGroupWindowMs : ℕ := 60000

/-- A timestamp of zero counts as none. -/
def isWithinChatGroupWindow (first second : Option MatrixEvent) : Bool :=
  match first, second with
  | some first, some second =>
    decide (first.timestamp ≠ 0) && decide (second.timestamp ≠ 0) &&
      decide (((first.timestamp : ℤ) - second.timestamp).natAbs ≤ chatGroupWindowMs)
  | _, _ => false

def getRowLayout (event : MatrixEvent) : ChatConversationRowLayout :=
  if isJoinedRoomMemberEvent event then .systemNotice else .message

/-- `orderBy(events, 'timestamp', 'desc')`, which keeps the order of equal timestamps. -/
def sortedEvents (events : List MatrixEvent) : List MatrixEvent :=
  events.insertionSort fun a b => b.timestamp ≤ a.timestamp

/-- The variables of the first loop; `previousEvent` is the event before in the sorted list. -/
structure Grouping where
  derivedEvents : List DerivedEvent
  usernamesByTimeGroup : ℕ → Option Bool
  currentTimeGroupId : ℕ
  currentSenderRunId : ℕ
  previousMessageSender : Option String
  previousMessageTimeGroupId : Option ℕ
  previousEvent : Option MatrixEvent

def Grouping.initial : Grouping := ⟨[], fun _ => none, 0, 0, none, none, none⟩

/-- One round of the first loop. -/
def groupEvent (type : ChatType) (g : Grouping) (event : MatrixEvent) : Grouping :=
  let layout := getRowLayout event
  let isSameTimeGroup := g.previousEvent.isSome && isWithinChatGroupWindow g.previousEvent (some event)
  let currentTimeGroupId :=
    if g.previousEvent.isSome && !isSameTimeGroup then g.currentTimeGroupId + 1 else g.currentTimeGroupId
  match layout with
  | .systemNotice =>
    { g with
      derivedEvents := g.derivedEvents ++ [⟨event, layout, currentTimeGroupId, none⟩]
      currentTimeGroupId := currentTimeGroupId
      previousEvent := some event }
  | .message =>
    let currentSenderRunId :=
      if g.previousMessageSender.isSome && (decide (g.previousMessageTimeGroupId ≠ some currentTimeGroupId) ||
          decide (g.previousMessageSender ≠ some event.sender)) then g.currentSenderRunId + 1
      else g.currentSenderRunId
    let showUsernamesInGroup := (g.usernamesByTimeGroup currentTimeGroupId).getD (decide (type = .group))
    { derivedEvents := g.derivedEvents ++ [⟨event, layout, currentTimeGroupId, some currentSenderRunId⟩]
      usernamesByTimeGroup := Function.update g.usernamesByTimeGroup currentTimeGroupId
        (some (showUsernamesInGroup && !isMultispendEvent event))
      currentTimeGroupId := currentTimeGroupId
      currentSenderRunId := currentSenderRunId
      previousMessageSender := some event.sender
      previousMessageTimeGroupId := some currentTimeGroupId
      previousEvent := some event }

def DerivedEvent.isMessage (d : DerivedEvent) : Bool := decide (d.layout = .message)

def previousMessageRows (previousMessageRow : Option DerivedEvent) : List DerivedEvent → List (Option DerivedEvent)
  | [] => []
  | d :: ds => previousMessageRow :: previousMessageRows (if d.isMessage then some d else previousMessageRow) ds

/-- The loop runs backwards; what it ends with is the first message row. -/
def nextMessageRows : List DerivedEvent → List (Option DerivedEvent) × Option DerivedEvent
  | [] => ([], none)
  | d :: ds =>
    let r := nextMessageRows ds
    (r.2 :: r.1, if d.isMessage then some d else r.2)

def makeRow (usernamesByTimeGroup : ℕ → Option Bool) (previousEvent nextEvent nextMessageEvent : Option DerivedEvent)
    (d : DerivedEvent) : ChatConversationRow :=
  let isMessageRow := d.isMessage
  let isNewestInSenderRun := isMessageRow && previousEvent.all fun p => decide (p.senderRunId ≠ d.senderRunId)
  let isOldestInSenderRun := isMessageRow && nextMessageEvent.all fun n => decide (n.senderRunId ≠ d.senderRunId)
  { event := d.event
    layout := d.layout
    showTimestamp := nextEvent.all fun n => decide (n.timeGroupId ≠ d.timeGroupId)
    showUsername := isMessageRow && isOldestInSenderRun
    showAvatar := isMessageRow && isNewestInSenderRun
    showUsernames := isMessageRow && (usernamesByTimeGroup d.timeGroupId).getD false
    isLastBubbleInRun := isMessageRow && isNewestInSenderRun }

def makeChatConversationRows (events : List MatrixEvent) (type : ChatType) : List ChatConversationRow :=
  let g := (sortedEvents events).foldl (groupEvent type) .initial
  let previous := previousMessageRows none g.derivedEvents
  let next := (nextMessageRows g.derivedEvents).1
  g.derivedEvents.mapIdx fun index d =>
    makeRow g.usernamesByTimeGroup (previous[index]?).join (g.derivedEvents[index + 1]?) (next[index]?).join d

/-! ## What the first loop counts -/

/-- Neighbours in the sorted list that are not more than a minute apart. -/
def Near (first second : MatrixEvent) : Prop := isWithinChatGroupWindow (some first) (some second) = true

instance (first second : MatrixEvent) : Decidable (Near first second) :=
  inferInstanceAs (Decidable (_ = true))

/-- A new time group begins where neighbours are not near. -/
def TimeStep (d d' : DerivedEvent) : Prop :=
  d'.timeGroupId = d.timeGroupId + if Near d.event d'.event then 0 else 1

/-- A new run begins with another sender or another time group. -/
def RunStep (d d' : DerivedEvent) : Prop :=
  ∃ n, d.senderRunId = some n ∧
    d'.senderRunId = some (n + if d'.event.sender = d.event.sender ∧ d'.timeGroupId = d.timeGroupId then 0 else 1)

/-- Usernames are shown in a time group of a group chat without a multispend message. -/
def usernamesOf (type : ChatType) (ds : List DerivedEvent) (timeGroupId : ℕ) : Option Bool :=
  if ds.any fun d => d.isMessage && decide (d.timeGroupId = timeGroupId) then
    some (decide (type = .group) && ds.all fun d =>
      !(d.isMessage && decide (d.timeGroupId = timeGroupId)) || !isMultispendEvent d.event)
  else none

/-- The messages among them. -/
def messages (ds : List DerivedEvent) : List DerivedEvent := ds.filter DerivedEvent.isMessage

structure Grouped (type : ChatType) (events : List MatrixEvent) (g : Grouping) : Prop where
  events : g.derivedEvents.map DerivedEvent.event = events
  layout : ∀ d ∈ g.derivedEvents, d.layout = getRowLayout d.event
  times : g.derivedEvents.IsChain TimeStep
  runs : (messages g.derivedEvents).IsChain RunStep
  usernames : g.usernamesByTimeGroup = usernamesOf type g.derivedEvents
  previous : g.previousEvent = g.derivedEvents.getLast?.map DerivedEvent.event
  current : ∀ d ∈ g.derivedEvents.getLast?, d.timeGroupId = g.currentTimeGroupId
  sender : g.previousMessageSender = (messages g.derivedEvents).getLast?.map fun d => d.event.sender
  group : g.previousMessageTimeGroupId = (messages g.derivedEvents).getLast?.map DerivedEvent.timeGroupId
  run : ∀ d ∈ (messages g.derivedEvents).getLast?, d.senderRunId = some g.currentSenderRunId

section
variable {type : ChatType} {events : List MatrixEvent} {g : Grouping} {event : MatrixEvent} {ds : List DerivedEvent}
  {d : DerivedEvent}

theorem isChain_snoc {R : DerivedEvent → DerivedEvent → Prop} (h : ds.IsChain R) (hlast : ∀ x ∈ ds.getLast?, R x d) :
    (ds ++ [d]).IsChain R := by
  rw [List.isChain_append]
  refine ⟨h, List.isChain_singleton d, fun x hx y hy => ?_⟩
  rw [List.head?_cons, Option.mem_some_iff] at hy
  exact hy ▸ hlast x hx

theorem messages_snoc : messages (ds ++ [d]) = messages ds ++ if d.isMessage then [d] else [] := by
  unfold messages
  rw [List.filter_append, List.filter_singleton, Bool.cond_eq_ite]

/-- The group of the next event. -/
def Grouping.nextTimeGroupId (g : Grouping) (event : MatrixEvent) : ℕ :=
  if g.previousEvent.isSome && !(g.previousEvent.isSome && isWithinChatGroupWindow g.previousEvent (some event)) then
    g.currentTimeGroupId + 1
  else g.currentTimeGroupId

theorem Grouped.nextTimeGroupId (h : Grouped type events g) (event : MatrixEvent) :
    ∀ d ∈ g.derivedEvents.getLast?,
      g.nextTimeGroupId event = d.timeGroupId + if Near d.event event then 0 else 1 := by
  intro d hd
  have hprevious : g.previousEvent = some d.event := by
    rw [h.previous, Option.mem_def.mp hd]
    rfl
  unfold Grouping.nextTimeGroupId
  rw [hprevious, h.current d hd]
  by_cases hnear : Near d.event event
  · have hwithin : isWithinChatGroupWindow (some d.event) (some event) = true := hnear
    rw [if_pos hnear, hwithin]
    rfl
  · have hwithin : isWithinChatGroupWindow (some d.event) (some event) = false := Bool.eq_false_of_not_eq_true hnear
    rw [if_neg hnear, hwithin]
    rfl

theorem usernamesOf_notice (hd : d.isMessage = false) : usernamesOf type (ds ++ [d]) = usernamesOf type ds := by
  funext k
  unfold usernamesOf
  rw [List.any_append, List.all_append]
  simp [hd]

theorem usernamesOf_message (hd : d.isMessage = true) : usernamesOf type (ds ++ [d]) =
    Function.update (usernamesOf type ds) d.timeGroupId
      (some ((usernamesOf type ds d.timeGroupId).getD (decide (type = .group)) && !isMultispendEvent d.event)) := by
  funext k
  by_cases hk : d.timeGroupId = k
  · subst hk
    rw [Function.update_self]
    unfold usernamesOf
    rw [List.any_append, List.all_append]
    by_cases hany : (ds.any fun x => x.isMessage && decide (x.timeGroupId = d.timeGroupId)) = true
    · simp [hd, hany, Bool.and_assoc]
    · have hall : (ds.all fun x => !(x.isMessage && decide (x.timeGroupId = d.timeGroupId)) ||
          !isMultispendEvent x.event) = true := by
        rw [List.all_eq_true]
        intro x hx
        have hnot : (x.isMessage && decide (x.timeGroupId = d.timeGroupId)) = false := by
          rw [Bool.eq_false_iff]
          intro hx'
          exact hany (List.any_eq_true.mpr ⟨x, hx, hx'⟩)
        rw [hnot]
        rfl
      rw [Bool.not_eq_true] at hany
      rw [hall, hany]
      simp [hd]
  · rw [Function.update_of_ne (Ne.symm hk)]
    unfold usernamesOf
    rw [List.any_append, List.all_append]
    simp [hk]

theorem getLast?_messages_snoc (hd : d.isMessage = true) : (messages (ds ++ [d])).getLast? = some d := by
  rw [messages_snoc, if_pos hd, List.getLast?_concat]

theorem messages_snoc_notice (hd : d.isMessage = false) : messages (ds ++ [d]) = messages ds := by
  rw [messages_snoc, hd]
  exact List.append_nil _

theorem grouped_notice (h : Grouped type events g) (hlayout : getRowLayout event = .systemNotice) :
    Grouped type (events ++ [event])
      { g with
        derivedEvents := g.derivedEvents ++ [⟨event, .systemNotice, g.nextTimeGroupId event, none⟩]
        currentTimeGroupId := g.nextTimeGroupId event
        previousEvent := some event } where
  events := by
    rw [List.map_append, h.events]
    rfl
  layout := by
    intro d hd
    rcases List.mem_append.mp hd with hd | hd
    · exact h.layout d hd
    · rw [List.mem_singleton.mp hd, hlayout]
  times := isChain_snoc h.times (h.nextTimeGroupId event)
  runs := by
    rw [messages_snoc_notice rfl]
    exact h.runs
  usernames := by
    rw [usernamesOf_notice rfl]
    exact h.usernames
  previous := by
    rw [List.getLast?_concat]
    rfl
  current := by
    rw [List.getLast?_concat]
    intro d hd
    rw [← Option.mem_some_iff.mp hd]
  sender := by
    rw [messages_snoc_notice rfl]
    exact h.sender
  group := by
    rw [messages_snoc_notice rfl]
    exact h.group
  run := by
    rw [messages_snoc_notice rfl]
    exact h.run

/-- The run of the next message. -/
def Grouping.nextSenderRunId (g : Grouping) (event : MatrixEvent) : ℕ :=
  if g.previousMessageSender.isSome && (decide (g.previousMessageTimeGroupId ≠ some (g.nextTimeGroupId event)) ||
      decide (g.previousMessageSender ≠ some event.sender)) then g.currentSenderRunId + 1
  else g.currentSenderRunId

theorem Grouped.runStep (h : Grouped type events g) (event : MatrixEvent) (layout : ChatConversationRowLayout) :
    ∀ d ∈ (messages g.derivedEvents).getLast?,
      RunStep d ⟨event, layout, g.nextTimeGroupId event, some (g.nextSenderRunId event)⟩ := by
  intro d hd
  refine ⟨g.currentSenderRunId, h.run d hd, ?_⟩
  have hsender : g.previousMessageSender = some d.event.sender := by
    rw [h.sender, Option.mem_def.mp hd]
    rfl
  have hgroup : g.previousMessageTimeGroupId = some d.timeGroupId := by
    rw [h.group, Option.mem_def.mp hd]
    rfl
  unfold Grouping.nextSenderRunId
  rw [hsender, hgroup]
  by_cases hsame : event.sender = d.event.sender ∧ g.nextTimeGroupId event = d.timeGroupId
  · rw [if_pos hsame, hsame.1, hsame.2]
    simp
  · rw [if_neg hsame, if_pos]
    simp only [Option.isSome_some, Bool.true_and, Bool.or_eq_true, decide_eq_true_eq, ne_eq, Option.some.injEq]
    by_contra hboth
    rw [not_or, not_not, not_not] at hboth
    exact hsame ⟨hboth.2.symm, hboth.1.symm⟩

theorem grouped_message (h : Grouped type events g) (hlayout : getRowLayout event = .message) :
    Grouped type (events ++ [event])
      { derivedEvents := g.derivedEvents ++
          [⟨event, .message, g.nextTimeGroupId event, some (g.nextSenderRunId event)⟩]
        usernamesByTimeGroup := Function.update g.usernamesByTimeGroup (g.nextTimeGroupId event)
          (some ((g.usernamesByTimeGroup (g.nextTimeGroupId event)).getD (decide (type = .group)) &&
            !isMultispendEvent event))
        currentTimeGroupId := g.nextTimeGroupId event
        currentSenderRunId := g.nextSenderRunId event
        previousMessageSender := some event.sender
        previousMessageTimeGroupId := some (g.nextTimeGroupId event)
        previousEvent := some event } where
  events := by
    rw [List.map_append, h.events]
    rfl
  layout := by
    intro d hd
    rcases List.mem_append.mp hd with hd | hd
    · exact h.layout d hd
    · rw [List.mem_singleton.mp hd, hlayout]
  times := isChain_snoc h.times (h.nextTimeGroupId event)
  runs := by
    have hmessage : (⟨event, .message, g.nextTimeGroupId event, some (g.nextSenderRunId event)⟩ : DerivedEvent).isMessage =
        true := rfl
    rw [messages_snoc, if_pos hmessage]
    exact isChain_snoc h.runs (h.runStep event .message)
  usernames := by
    rw [usernamesOf_message rfl, h.usernames]
  previous := by
    rw [List.getLast?_concat]
    rfl
  current := by
    rw [List.getLast?_concat]
    intro d hd
    rw [← Option.mem_some_iff.mp hd]
  sender := by
    rw [getLast?_messages_snoc rfl]
    rfl
  group := by
    rw [getLast?_messages_snoc rfl]
    rfl
  run := by
    rw [getLast?_messages_snoc rfl]
    intro d hd
    rw [← Option.mem_some_iff.mp hd]

theorem grouped_step (h : Grouped type events g) (event : MatrixEvent) :
    Grouped type (events ++ [event]) (groupEvent type g event) := by
  unfold groupEvent
  dsimp only
  cases hlayout : getRowLayout event with
  | systemNotice => exact grouped_notice h hlayout
  | message => exact grouped_message h hlayout

theorem grouped (type : ChatType) (events : List MatrixEvent) :
    Grouped type events (events.foldl (groupEvent type) .initial) := by
  induction events using List.reverseRecOn with
  | nil =>
    refine ⟨rfl, fun d hd => ?_, List.isChain_nil, List.isChain_nil, rfl, rfl, fun d hd => ?_, rfl, rfl, fun d hd => ?_⟩
    · cases hd
    · cases hd
    · cases hd
  | append_singleton events event ih =>
    rw [List.foldl_append]
    exact grouped_step ih event

/-! ## What the counters tell -/

/-- All neighbours from the first to the last are near. -/
def NearAll (events : List MatrixEvent) : Prop := events.IsChain Near

instance (events : List MatrixEvent) : Decidable (NearAll events) := inferInstanceAs (Decidable (List.IsChain _ _))

/-- Two events are in one time group when all between them are near. -/
theorem timeGroup_between {p q : DerivedEvent} {between : List DerivedEvent} (h : (p :: between ++ [q]).IsChain TimeStep) :
    p.timeGroupId ≤ q.timeGroupId ∧
      (q.timeGroupId = p.timeGroupId ↔ NearAll ((p :: between ++ [q]).map DerivedEvent.event)) := by
  unfold NearAll
  induction between generalizing p with
  | nil =>
    have hstep : TimeStep p q := (List.isChain_cons_cons.mp h).1
    unfold TimeStep at hstep
    rw [hstep]
    by_cases hnear : Near p.event q.event
    · simp [hnear]
    · simp [hnear]
  | cons x between ih =>
    obtain ⟨hstep, hrest⟩ := List.isChain_cons_cons.mp h
    obtain ⟨hle, hiff⟩ := ih hrest
    unfold TimeStep at hstep
    rw [List.cons_append, List.cons_append, List.map_cons, List.map_cons, List.isChain_cons_cons, ← List.map_cons,
      ← List.cons_append, ← hiff]
    by_cases hnear : Near p.event x.event
    · rw [if_pos hnear] at hstep
      exact ⟨by omega, ⟨fun heq => ⟨hnear, by omega⟩, fun heq => by omega⟩⟩
    · rw [if_neg hnear] at hstep
      exact ⟨by omega, ⟨fun heq => by omega, fun heq => absurd heq.1 hnear⟩⟩

theorem last_message (ds : List DerivedEvent) :
    messages ds = [] ∨ ∃ newer p between, ds = newer ++ p :: between ∧ p.isMessage = true ∧
      (∀ x ∈ between, x.isMessage = false) ∧ (messages ds).getLast? = some p := by
  induction ds using List.reverseRecOn with
  | nil => exact .inl rfl
  | append_singleton ds d ih =>
    cases hd : d.isMessage with
    | true =>
      exact .inr ⟨ds, d, [], rfl, hd, fun x hx => (by cases hx), getLast?_messages_snoc hd⟩
    | false =>
      rw [messages_snoc_notice hd]
      rcases ih with hnone | ⟨newer, p, between, rfl, hp, hbetween, hlast⟩
      · exact .inl hnone
      · refine .inr ⟨newer, p, between ++ [d], by rw [List.append_assoc, List.cons_append], hp, fun x hx => ?_, hlast⟩
        rcases List.mem_append.mp hx with hx | hx
        · exact hbetween x hx
        · rw [List.mem_singleton.mp hx]
          exact hd

theorem messages_eq_nil (h : ∀ x ∈ ds, x.isMessage = false) : messages ds = [] := by
  unfold messages
  rw [List.filter_eq_nil_iff]
  intro x hx
  rw [h x hx]
  exact Bool.false_ne_true

theorem messages_split {newer between older : List DerivedEvent} {p : DerivedEvent} (hp : p.isMessage = true)
    (hbetween : ∀ x ∈ between, x.isMessage = false) :
    messages (newer ++ p :: between ++ older) = messages newer ++ p :: messages older := by
  have hnone := messages_eq_nil hbetween
  unfold messages at hnone ⊢
  rw [List.filter_append, List.filter_append, List.filter_cons_of_pos hp, hnone, List.append_assoc]
  rfl

theorem first_message (ds : List DerivedEvent) :
    messages ds = [] ∨ ∃ between q older, ds = between ++ q :: older ∧ q.isMessage = true ∧
      (∀ x ∈ between, x.isMessage = false) ∧ (messages ds).head? = some q := by
  induction ds with
  | nil => exact .inl rfl
  | cons d ds ih =>
    cases hd : d.isMessage with
    | true =>
      refine .inr ⟨[], d, ds, rfl, hd, fun x hx => (by cases hx), ?_⟩
      unfold messages
      rw [List.filter_cons_of_pos hd]
      rfl
    | false =>
      have hsame : messages (d :: ds) = messages ds := List.filter_cons_of_neg (by rw [hd]; exact Bool.false_ne_true)
      rw [hsame]
      rcases ih with hnone | ⟨between, q, older, rfl, hq, hbetween, hfirst⟩
      · exact .inl hnone
      · refine .inr ⟨d :: between, q, older, rfl, hq, fun x hx => ?_, hfirst⟩
        rcases List.mem_cons.mp hx with rfl | hx
        · exact hd
        · exact hbetween x hx

theorem previousMessageRows_getElem? (newer older : List DerivedEvent) (d : DerivedEvent) (previous : Option DerivedEvent) :
    (previousMessageRows previous (newer ++ d :: older))[newer.length]? =
      some ((messages newer).getLast?.or previous) := by
  induction newer generalizing previous with
  | nil => rfl
  | cons x newer ih =>
    rw [List.cons_append, previousMessageRows, List.length_cons, List.getElem?_cons_succ, ih]
    unfold messages
    cases hx : x.isMessage with
    | true =>
      rw [List.filter_cons_of_pos hx, if_pos rfl, List.getLast?_cons]
      cases (newer.filter DerivedEvent.isMessage).getLast? <;> rfl
    | false =>
      rw [List.filter_cons_of_neg (by rw [hx]; exact Bool.false_ne_true), if_neg Bool.false_ne_true]

theorem nextMessageRows_snd (ds : List DerivedEvent) : (nextMessageRows ds).2 = (messages ds).head? := by
  induction ds with
  | nil => rfl
  | cons d ds ih =>
    unfold nextMessageRows messages
    dsimp only
    cases hd : d.isMessage with
    | true =>
      rw [List.filter_cons_of_pos hd]
      rfl
    | false =>
      rw [List.filter_cons_of_neg (by rw [hd]; exact Bool.false_ne_true), if_neg Bool.false_ne_true]
      exact ih

theorem nextMessageRows_getElem? (newer older : List DerivedEvent) (d : DerivedEvent) :
    (nextMessageRows (newer ++ d :: older)).1[newer.length]? = some (messages older).head? := by
  induction newer with
  | nil => exact congrArg some (nextMessageRows_snd older)
  | cons x newer ih => exact ih

/-! ## What the rows mean -/

/-- The event is a row of its own sender, not a notice that somebody joined. -/
def IsMessage (event : MatrixEvent) : Prop := getRowLayout event = .message

/-- A newer message of the same sender, with only notices between, and all of them near. -/
def ContinuedBy (newer : List MatrixEvent) (event : MatrixEvent) : Prop :=
  ∃ earlier p between, newer = earlier ++ p :: between ∧ IsMessage p ∧ (∀ x ∈ between, ¬ IsMessage x) ∧
    p.sender = event.sender ∧ NearAll (p :: between ++ [event])

/-- An older message of the same sender, with only notices between, and all of them near. -/
def Continues (event : MatrixEvent) (older : List MatrixEvent) : Prop :=
  ∃ between q later, older = between ++ q :: later ∧ IsMessage q ∧ (∀ x ∈ between, ¬ IsMessage x) ∧
    q.sender = event.sender ∧ NearAll (event :: between ++ [q])

/-- The two are in one stretch of near neighbours, newer to the left. -/
def NewerTogether (newer : List MatrixEvent) (p event : MatrixEvent) : Prop :=
  ∃ earlier between, newer = earlier ++ p :: between ∧ NearAll (p :: between ++ [event])

def OlderTogether (event q : MatrixEvent) (older : List MatrixEvent) : Prop :=
  ∃ between later, older = between ++ q :: later ∧ NearAll (event :: between ++ [q])

/-- The row of an event with what is newer and what is older. -/
structure RowMeans (type : ChatType) (newer : List MatrixEvent) (e : MatrixEvent) (older : List MatrixEvent)
    (row : ChatConversationRow) : Prop where
  event : row.event = e
  layout : row.layout = getRowLayout e
  showTimestamp : row.showTimestamp = true ↔ ∀ q later, older = q :: later → ¬ Near e q
  showAvatar : row.showAvatar = true ↔ IsMessage e ∧ ¬ ContinuedBy newer e
  isLastBubbleInRun : row.isLastBubbleInRun = row.showAvatar
  showUsername : row.showUsername = true ↔ IsMessage e ∧ ¬ Continues e older
  showUsernames : row.showUsernames = true ↔ IsMessage e ∧ type = .group ∧ isMultispendEvent e = false ∧
    (∀ p, NewerTogether newer p e → isMultispendEvent p = false) ∧
    ∀ q, OlderTogether e q older → isMultispendEvent q = false

variable {newer older : List DerivedEvent}

theorem isMessage_iff (h : Grouped type events g) (hd : d ∈ g.derivedEvents) :
    d.isMessage = true ↔ IsMessage d.event := by
  unfold DerivedEvent.isMessage IsMessage
  rw [decide_eq_true_eq, h.layout d hd]

/-- The counters of two messages with only notices between. -/
theorem senderRunId_eq_iff {p q : DerivedEvent} {between : List DerivedEvent} (h : Grouped type events g)
    (hds : g.derivedEvents = newer ++ p :: between ++ q :: older) (hp : p.isMessage = true) (hq : q.isMessage = true)
    (hbetween : ∀ x ∈ between, x.isMessage = false) :
    p.senderRunId = q.senderRunId ↔ p.event.sender = q.event.sender ∧
      NearAll (p.event :: between.map DerivedEvent.event ++ [q.event]) := by
  have htimes : (p :: between ++ [q]).IsChain TimeStep := by
    have htimes := h.times
    rw [hds, show newer ++ p :: between ++ q :: older = newer ++ ((p :: between ++ [q]) ++ older) by simp] at htimes
    exact (List.isChain_append.mp (List.isChain_append.mp htimes).2.1).1
  have hstep : RunStep p q := by
    have hruns := h.runs
    rw [hds, messages_split hp hbetween, show messages (q :: older) = q :: messages older from
      List.filter_cons_of_pos hq] at hruns
    exact (List.isChain_cons_cons.mp (List.isChain_append.mp hruns).2.1).1
  obtain ⟨n, hn, hn'⟩ := hstep
  obtain ⟨-, hgroup⟩ := timeGroup_between htimes
  rw [List.map_append, List.map_cons, List.map_singleton] at hgroup
  rw [hn, hn', ← hgroup, Option.some.injEq]
  by_cases hsame : q.event.sender = p.event.sender ∧ q.timeGroupId = p.timeGroupId
  · rw [if_pos hsame]
    exact ⟨fun _ => ⟨hsame.1.symm, hsame.2⟩, fun _ => rfl⟩
  · rw [if_neg hsame]
    exact ⟨fun heq => by omega, fun hboth => absurd ⟨hboth.1.symm, hboth.2⟩ hsame⟩

theorem continuedBy_iff (h : Grouped type events g) (hds : g.derivedEvents = newer ++ d :: older)
    (hd : d.isMessage = true) :
    (∃ p ∈ (messages newer).getLast?, p.senderRunId = d.senderRunId) ↔
      ContinuedBy (newer.map DerivedEvent.event) d.event := by
  have hmem : ∀ x ∈ newer, x ∈ g.derivedEvents := by
    intro x hx
    rw [hds]
    exact List.mem_append_left _ hx
  constructor
  · rintro ⟨p, hp, hrun⟩
    rcases last_message newer with hnone | ⟨earlier, p', between, rfl, hp', hbetween, hlast⟩
    · rw [hnone] at hp
      cases hp
    · obtain rfl : p' = p := Option.some.inj (hlast.symm.trans hp)
      obtain ⟨hsender, hnear⟩ := (senderRunId_eq_iff h hds hp' hd hbetween).mp hrun
      refine ⟨earlier.map DerivedEvent.event, p'.event, between.map DerivedEvent.event, by simp, ?_, ?_, hsender, hnear⟩
      · exact (isMessage_iff h (hmem p' (by simp))).mp hp'
      · intro x hx
        obtain ⟨y, hy, rfl⟩ := List.mem_map.mp hx
        rw [← isMessage_iff h (hmem y (by simp [hy])), hbetween y hy]
        exact Bool.false_ne_true
  · rintro ⟨earlier, p, between, hnewer, hp, hbetween, hsender, hnear⟩
    obtain ⟨earlier', rest, rfl, rfl, hrest⟩ := List.map_eq_append_iff.mp hnewer
    obtain ⟨p', between', rfl, rfl, rfl⟩ := List.map_eq_cons_iff.mp hrest
    have hp' : p'.isMessage = true := (isMessage_iff h (hmem p' (by simp))).mpr hp
    have hbetween' : ∀ x ∈ between', x.isMessage = false := by
      intro x hx
      rw [Bool.eq_false_iff, ne_eq, isMessage_iff h (hmem x (by simp [hx]))]
      exact hbetween x.event (List.mem_map_of_mem hx)
    have hsplit : messages (earlier' ++ p' :: between' ++ []) = messages earlier' ++ p' :: messages [] :=
      messages_split hp' hbetween'
    rw [List.append_nil] at hsplit
    refine ⟨p', ?_, (senderRunId_eq_iff h hds hp' hd hbetween').mpr ⟨hsender, hnear⟩⟩
    rw [hsplit, show messages [] = [] from rfl, List.getLast?_concat]
    rfl

theorem continues_iff (h : Grouped type events g) (hds : g.derivedEvents = newer ++ d :: older)
    (hd : d.isMessage = true) :
    (∃ q ∈ (messages older).head?, q.senderRunId = d.senderRunId) ↔
      Continues d.event (older.map DerivedEvent.event) := by
  have hmem : ∀ x ∈ older, x ∈ g.derivedEvents := by
    intro x hx
    rw [hds]
    exact List.mem_append_right _ (List.mem_cons_of_mem _ hx)
  constructor
  · rintro ⟨q, hq, hrun⟩
    rcases first_message older with hnone | ⟨between, q', later, rfl, hq', hbetween, hfirst⟩
    · rw [hnone] at hq
      cases hq
    · obtain rfl : q' = q := Option.some.inj (hfirst.symm.trans hq)
      rw [← List.cons_append, ← List.append_assoc] at hds
      obtain ⟨hsender, hnear⟩ := (senderRunId_eq_iff h hds hd hq' hbetween).mp hrun.symm
      refine ⟨between.map DerivedEvent.event, q'.event, later.map DerivedEvent.event, by simp, ?_, ?_, hsender.symm, hnear⟩
      · exact (isMessage_iff h (hmem q' (by simp))).mp hq'
      · intro x hx
        obtain ⟨y, hy, rfl⟩ := List.mem_map.mp hx
        rw [← isMessage_iff h (hmem y (by simp [hy])), hbetween y hy]
        exact Bool.false_ne_true
  · rintro ⟨between, q, later, holder, hq, hbetween, hsender, hnear⟩
    obtain ⟨between', rest, rfl, rfl, hrest⟩ := List.map_eq_append_iff.mp holder
    obtain ⟨q', later', rfl, rfl, rfl⟩ := List.map_eq_cons_iff.mp hrest
    have hq' : q'.isMessage = true := (isMessage_iff h (hmem q' (by simp))).mpr hq
    have hbetween' : ∀ x ∈ between', x.isMessage = false := by
      intro x hx
      rw [Bool.eq_false_iff, ne_eq, isMessage_iff h (hmem x (by simp [hx]))]
      exact hbetween x.event (List.mem_map_of_mem hx)
    have hfirst : (messages (between' ++ q' :: later')).head? = some q' := by
      have hnone := messages_eq_nil hbetween'
      unfold messages at hnone ⊢
      rw [List.filter_append, hnone, List.filter_cons_of_pos hq']
      rfl
    rw [← List.cons_append, ← List.append_assoc] at hds
    exact ⟨q', hfirst, ((senderRunId_eq_iff h hds hd hq' hbetween').mpr ⟨hsender.symm, hnear⟩).symm⟩

theorem times_between {p q : DerivedEvent} {between : List DerivedEvent} (h : Grouped type events g)
    (hds : g.derivedEvents = newer ++ p :: between ++ q :: older) : (p :: between ++ [q]).IsChain TimeStep := by
  have htimes := h.times
  rw [hds, show newer ++ p :: between ++ q :: older = newer ++ ((p :: between ++ [q]) ++ older) by simp] at htimes
  exact (List.isChain_append.mp (List.isChain_append.mp htimes).2.1).1

theorem newerTogether_iff (h : Grouped type events g) (hds : g.derivedEvents = newer ++ d :: older) (p : MatrixEvent) :
    NewerTogether (newer.map DerivedEvent.event) p d.event ↔
      ∃ x ∈ newer, x.event = p ∧ x.timeGroupId = d.timeGroupId := by
  constructor
  · rintro ⟨earlier, between, hnewer, hnear⟩
    obtain ⟨earlier', rest, rfl, rfl, hrest⟩ := List.map_eq_append_iff.mp hnewer
    obtain ⟨x, between', rfl, rfl, rfl⟩ := List.map_eq_cons_iff.mp hrest
    obtain ⟨-, hgroup⟩ := timeGroup_between (times_between h hds)
    rw [List.map_append, List.map_cons, List.map_singleton] at hgroup
    exact ⟨x, by simp, rfl, (hgroup.mpr hnear).symm⟩
  · rintro ⟨x, hx, rfl, hgroup⟩
    obtain ⟨earlier, between, rfl⟩ := List.append_of_mem hx
    obtain ⟨-, hiff⟩ := timeGroup_between (times_between h hds)
    rw [List.map_append, List.map_cons, List.map_singleton] at hiff
    exact ⟨earlier.map DerivedEvent.event, between.map DerivedEvent.event, by simp, hiff.mp hgroup.symm⟩

theorem olderTogether_iff (h : Grouped type events g) (hds : g.derivedEvents = newer ++ d :: older) (q : MatrixEvent) :
    OlderTogether d.event q (older.map DerivedEvent.event) ↔
      ∃ x ∈ older, x.event = q ∧ x.timeGroupId = d.timeGroupId := by
  constructor
  · rintro ⟨between, later, holder, hnear⟩
    obtain ⟨between', rest, rfl, rfl, hrest⟩ := List.map_eq_append_iff.mp holder
    obtain ⟨x, later', rfl, rfl, rfl⟩ := List.map_eq_cons_iff.mp hrest
    rw [← List.cons_append, ← List.append_assoc] at hds
    obtain ⟨-, hgroup⟩ := timeGroup_between (times_between h hds)
    rw [List.map_append, List.map_cons, List.map_singleton] at hgroup
    exact ⟨x, by simp, rfl, hgroup.mpr hnear⟩
  · rintro ⟨x, hx, rfl, hgroup⟩
    obtain ⟨between, later, rfl⟩ := List.append_of_mem hx
    rw [← List.cons_append, ← List.append_assoc] at hds
    obtain ⟨-, hiff⟩ := timeGroup_between (times_between h hds)
    rw [List.map_append, List.map_cons, List.map_singleton] at hiff
    exact ⟨between.map DerivedEvent.event, later.map DerivedEvent.event, by simp, hiff.mp hgroup⟩

theorem isMessage_of_multispend {e : MatrixEvent} (h : isMultispendEvent e = true) : IsMessage e := by
  unfold isMultispendEvent at h
  rw [decide_eq_true_eq] at h
  unfold IsMessage getRowLayout isJoinedRoomMemberEvent
  rw [h]
  rfl

theorem usernames_iff (h : Grouped type events g) (hds : g.derivedEvents = newer ++ d :: older)
    (hd : d.isMessage = true) :
    (g.usernamesByTimeGroup d.timeGroupId).getD false = true ↔ type = .group ∧ isMultispendEvent d.event = false ∧
      (∀ p, NewerTogether (newer.map DerivedEvent.event) p d.event → isMultispendEvent p = false) ∧
      ∀ q, OlderTogether d.event q (older.map DerivedEvent.event) → isMultispendEvent q = false := by
  have hmem : d ∈ g.derivedEvents := by
    rw [hds]
    exact List.mem_append_right _ List.mem_cons_self
  have hany : (g.derivedEvents.any fun x => x.isMessage && decide (x.timeGroupId = d.timeGroupId)) = true :=
    List.any_eq_true.mpr ⟨d, hmem, by rw [hd]; simp⟩
  -- whether it is a message is no question for a multispend event
  have hall : (g.derivedEvents.all fun x => !(x.isMessage && decide (x.timeGroupId = d.timeGroupId)) ||
      !isMultispendEvent x.event) = true ↔
        ∀ x ∈ g.derivedEvents, x.timeGroupId = d.timeGroupId → isMultispendEvent x.event = false := by
    rw [List.all_eq_true]
    refine forall₂_congr fun x hx => ?_
    cases hmulti : isMultispendEvent x.event with
    | false => simp
    | true =>
      rw [(isMessage_iff h hx).mpr (isMessage_of_multispend hmulti)]
      simp
  rw [h.usernames]
  unfold usernamesOf
  rw [if_pos hany, Option.getD_some, Bool.and_eq_true, decide_eq_true_eq, hall]
  refine and_congr_right fun _ => ⟨fun hnone => ⟨hnone d hmem rfl, fun p hp => ?_, fun q hq => ?_⟩, ?_⟩
  · obtain ⟨x, hx, rfl, hgroup⟩ := (newerTogether_iff h hds p).mp hp
    exact hnone x (by rw [hds]; exact List.mem_append_left _ hx) hgroup
  · obtain ⟨x, hx, rfl, hgroup⟩ := (olderTogether_iff h hds q).mp hq
    exact hnone x (by rw [hds]; exact List.mem_append_right _ (List.mem_cons_of_mem _ hx)) hgroup
  · rintro ⟨hself, hnewer, holder⟩ x hx hgroup
    rw [hds] at hx
    rcases List.mem_append.mp hx with hx | hx
    · exact hnewer x.event ((newerTogether_iff h hds _).mpr ⟨x, hx, rfl, hgroup⟩)
    · rcases List.mem_cons.mp hx with rfl | hx
      · exact hself
      · exact holder x.event ((olderTogether_iff h hds _).mpr ⟨x, hx, rfl, hgroup⟩)

theorem all_iff {o : Option DerivedEvent} {P : DerivedEvent → Prop} [DecidablePred P] :
    (o.all fun x => decide (¬ P x)) = true ↔ ¬ ∃ x ∈ o, P x := by
  cases o with
  | none => simp
  | some x => simp

theorem makeRow_means (h : Grouped type events g) (hds : g.derivedEvents = newer ++ d :: older) :
    RowMeans type (newer.map DerivedEvent.event) d.event (older.map DerivedEvent.event)
      (makeRow g.usernamesByTimeGroup (messages newer).getLast? older.head? (messages older).head? d) := by
  have hmem : d ∈ g.derivedEvents := by
    rw [hds]
    exact List.mem_append_right _ List.mem_cons_self
  have hmessage := isMessage_iff h hmem
  have hflag : ∀ {c : Bool} {P : Prop}, (d.isMessage = true → (c = true ↔ P)) →
      ((d.isMessage && c) = true ↔ IsMessage d.event ∧ P) := by
    intro c P hiff
    rw [Bool.and_eq_true, ← hmessage]
    exact and_congr_right hiff
  refine ⟨rfl, h.layout d hmem, ?_, ?_, rfl, ?_, hflag fun hd => usernames_iff h hds hd⟩
  · show (older.head?.all fun n => decide (¬ n.timeGroupId = d.timeGroupId)) = true ↔ _
    cases older with
    | nil => simp
    | cons q later =>
      have htimes : TimeStep d q := by
        have hsplit : g.derivedEvents = newer ++ d :: [] ++ q :: later := by
          rw [hds, List.append_assoc]
          rfl
        have htimes : (d :: [] ++ [q]).IsChain TimeStep := times_between h hsplit
        exact (List.isChain_cons_cons.mp htimes).1
      unfold TimeStep at htimes
      rw [List.head?_cons, Option.all_some, decide_eq_true_eq, htimes, List.map_cons]
      by_cases hnear : Near d.event q.event
      · simp [hnear]
      · simp [hnear]
  · show (d.isMessage && (d.isMessage && _)) = true ↔ _
    rw [← Bool.and_assoc, Bool.and_self]
    refine hflag fun hd => ?_
    rw [← continuedBy_iff h hds hd]
    exact all_iff
  · show (d.isMessage && (d.isMessage && _)) = true ↔ _
    rw [← Bool.and_assoc, Bool.and_self]
    refine hflag fun hd => ?_
    rw [← continues_iff h hds hd]
    exact all_iff

end

theorem length_makeChatConversationRows (events : List MatrixEvent) (type : ChatType) :
    (makeChatConversationRows events type).length = (sortedEvents events).length := by
  have hevents := congrArg List.length (grouped type (sortedEvents events)).events
  rw [List.length_map] at hevents
  unfold makeChatConversationRows
  rw [List.length_mapIdx, hevents]

def demoMessage (id sender : String) (timestamp : ℕ) : MatrixEvent := ⟨id, sender, timestamp, .other "m.text"⟩

def demoJoined : MatrixEvent := ⟨"2", "@carol:m1", 70000, .roomMember (some .joined)⟩

end ChatRows
