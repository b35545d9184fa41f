import Mathlib.Data.List.Nodup
import Fedi.Federations.Databases

/-!
# No federation reaches the data of another one

Along every run the one global database behaves as a family of separate stores, one for each
database of a federation and one for each namespace of the bridge: what is in a space is what
was written to it by the federation that it was made for, or by the bridge
(`databases_isolated`).  So `AppState` in memory stays equal to the one in the database
(`appState_remembered`).

Of the encoding of numbers, which is not part of the repository, two things are used.  The
number that is handed out next must not wrap around.
-/

namespace FederationDbs

open KeySpaces

/-- No encoding of a u64 begins with another one, and a zero is one byte. -/
structure Encodes (encode : ℕ → List UInt8) : Prop where
  free : ∀ m n, m < 2 ^ 64 → n < 2 ^ 64 → encode m <+: encode n → m = n
  zero : encode 0 = [0]

/-- The number of a database is one that was handed out. -/
def DatabaseInfo.Below (bound : ℕ) : DatabaseInfo → Prop
  | .databaseName _ => True
  | .databasePrefix n => 1 ≤ n ∧ n < bound

def Space.Valid : Space → Prop
  | .federation db => db.Below (2 ^ 64)
  | .bridge _ => True

def Space.Global : Space → Prop
  | .federation (.databaseName _) => False
  | _ => True

theorem DatabaseInfo.Below.mono {db : DatabaseInfo} {a b : ℕ} (h : db.Below a) (hab : a ≤ b) : db.Below b := by
  cases db with
  | databaseName name => trivial
  | databasePrefix n => exact ⟨h.1, Nat.lt_of_lt_of_le h.2 hab⟩

/-! ## The spaces of the global database -/

theorem toByte_injective {a b : BridgeDbPrefix} (h : a.toByte = b.toByte) : a = b := by
  cases a <;> cases b <;> first | rfl | exact absurd h (by decide)

section
variable {encode : ℕ → List UInt8}

/-- The bridge's start is the encoding of a number that is never handed out. -/
theorem Encodes.apart (h : Encodes encode) {n : ℕ} (h0 : 1 ≤ n) (hn : n < 2 ^ 64) (tag : UInt8) :
    Apart (encode n) [bridgeDbPrefix, tag] := by
  have hbridge : encode 0 <+: [bridgeDbPrefix, tag] := by
    rw [h.zero]
    exact List.prefix_append [0] [tag]
  constructor
  · intro hpre
    rcases List.prefix_or_prefix_of_prefix hpre hbridge with hn0 | h0n
    · have := h.free n 0 hn (by omega) hn0
      omega
    · have := h.free 0 n (by omega) hn h0n
      omega
  · intro hpre
    have := h.free 0 n (by omega) hn (hbridge.trans hpre)
    omega

theorem separate_starts (h : Encodes encode) :
    Separate {i : Space | i.Valid ∧ i.Global} (starts encode) := by
  rintro i ⟨hi, hgi⟩ j ⟨hj, hgj⟩ hpre
  match i, j with
  | .federation (.databaseName _), _ => exact hgi.elim
  | _, .federation (.databaseName _) => exact hgj.elim
  | .federation (.databasePrefix m), .federation (.databasePrefix n) =>
    have hmn : m = n := h.free m n hi.2 hj.2 hpre
    rw [hmn]
  | .federation (.databasePrefix m), .bridge tag => exact absurd hpre (h.apart hi.1 hi.2 tag.toByte).1
  | .bridge tag, .federation (.databasePrefix n) => exact absurd hpre (h.apart hj.1 hj.2 tag.toByte).2
  | .bridge a, .bridge b =>
    have hab : [bridgeDbPrefix, a.toByte] = [bridgeDbPrefix, b.toByte] := hpre.eq_of_length rfl
    rw [toByte_injective (List.cons.inj (List.cons.inj hab).2).1]

theorem exec_named {s : System} {author : Option String} {c : Command Space UInt8 Value} {name : String}
    (hc : c.space = .federation (.databaseName name)) : s.exec encode author c =
      { s with
        namedDbs := Function.update s.namedDbs name (c.onSpace (s.namedDbs name))
        log := s.log ++ [⟨author, c⟩] } := by
  unfold System.exec
  rw [hc]

theorem exec_global {s : System} {author : Option String} {c : Command Space UInt8 Value} (hc : c.space.Global) :
    s.exec encode author c =
      { s with globalDb := c.onStore (starts encode) s.globalDb, log := s.log ++ [⟨author, c⟩] } := by
  unfold System.exec
  split
  · rename_i name hname
    rw [hname] at hc
    exact hc.elim
  · rfl

theorem space_congr {s s' : System} (hglobal : s'.globalDb = s.globalDb) (hnamed : s'.namedDbs = s.namedDbs)
    {i : Space} : s'.space encode i = s.space encode i := by
  unfold System.space
  rw [hglobal, hnamed]

theorem space_global (s : System) {i : Space} (hi : i.Global) :
    s.space encode i = s.globalDb.view (starts encode i) := by
  match i with
  | .federation (.databaseName _) => exact hi.elim
  | .federation (.databasePrefix _) => rfl
  | .bridge _ => rfl

theorem Space.named_or_global (i : Space) : (∃ name, i = .federation (.databaseName name)) ∨ i.Global := by
  match i with
  | .federation (.databaseName name) => exact .inl ⟨name, rfl⟩
  | .federation (.databasePrefix _) => exact .inr trivial
  | .bridge _ => exact .inr trivial

theorem global_of_ne {i j : Space} {name : String} (hi : i = .federation (.databaseName name)) (hj : j.Global) :
    i ≠ j := by
  rintro rfl
  rw [hi] at hj
  exact hj

/-- A transaction changes its space and no other one. -/
theorem space_exec (h : Encodes encode) (s : System) (author : Option String) {c : Command Space UInt8 Value}
    (hc : c.space.Valid) {i : Space} (hi : i.Valid) : (s.exec encode author c).space encode i =
      if c.space = i then c.onSpace (s.space encode i) else s.space encode i := by
  rcases c.space.named_or_global with ⟨name, hname⟩ | hcg
  · rw [exec_named hname]
    rcases i.named_or_global with ⟨other, rfl⟩ | hig
    · show Function.update s.namedDbs name (c.onSpace (s.namedDbs name)) other = _
      by_cases heq : name = other
      · subst heq
        rw [Function.update_self, if_pos hname]
        rfl
      · rw [Function.update_of_ne (Ne.symm heq), if_neg (by rw [hname]; simpa using heq)]
        rfl
    · rw [if_neg (global_of_ne hname hig), space_global _ hig, space_global _ hig]
  · rw [exec_global hcg]
    rcases i.named_or_global with ⟨other, hother⟩ | hig
    · rw [if_neg (global_of_ne hother hcg).symm, hother]
      rfl
    · rw [space_global _ hig, space_global _ hig]
      exact view_onStore (separate_starts h) ⟨hc, hcg⟩ ⟨hi, hig⟩ s.globalDb

end

/-! ## What the slots hold -/

/-- A write to a database is one of the federation that it was made for. -/
def Entry.Lawful (owners : List (DatabaseInfo × String)) (e : Entry) : Prop :=
  match e.command.space with
  | .federation db => ∃ id, e.author = some id ∧ (db, id) ∈ owners
  | .bridge _ => e.author = none

theorem Entry.Lawful.mono {owners owners' : List (DatabaseInfo × String)} {e : Entry} (h : e.Lawful owners)
    (howners : owners ⊆ owners') : e.Lawful owners' := by
  unfold Entry.Lawful at h ⊢
  split at h
  · obtain ⟨id, hid, hown⟩ := h
    exact ⟨id, hid, howners hown⟩
  · exact h

section
variable (a : AppState) (owners : List (DatabaseInfo × String)) (deleted : List DatabaseInfo)

def Slot.Fits (id : String) : Slot → Prop
  | .absent | .loadFailed => True
  | .loading db | .live db => ∃ info, a.joinedFederations id = some info ∧ info.database = db
  | .joining n => (.databasePrefix n, id) ∈ owners ∧ .databasePrefix n ∉ deleted ∧
      ∀ info, a.joinedFederations id = some info → info.database ≠ .databasePrefix n
  | .leaving db removed => db = removed ∧ (removed, id) ∈ owners ∧ removed ∉ deleted ∧ a.joinedFederations id = none

structure Registry (slots : String → Slot) : Prop where
  counter : 1 ≤ a.nextFederationDbPrefix
  below : ∀ p ∈ owners, p.1.Below a.nextFederationDbPrefix
  distinct : (owners.map Prod.fst).Nodup
  joined : ∀ id info, a.joinedFederations id = some info → (info.database, id) ∈ owners ∧ info.database ∉ deleted
  slots : ∀ id, (slots id).Fits a owners deleted id
  gone : ∀ db ∈ deleted, ∃ id, (db, id) ∈ owners

end

section
variable {a a' : AppState} {owners owners' : List (DatabaseInfo × String)} {deleted deleted' : List DatabaseInfo}
  {slots : String → Slot} {id : String} {slot : Slot} {n : ℕ}

theorem Slot.Fits.frame (h : slot.Fits a owners deleted id)
    (hjoined : a'.joinedFederations id = a.joinedFederations id) (howners : owners ⊆ owners')
    (hdeleted : ∀ db, (db, id) ∈ owners → db ∈ deleted' → db ∈ deleted) : slot.Fits a' owners' deleted' id := by
  match slot with
  | .absent | .loadFailed => trivial
  | .loading db | .live db =>
    obtain ⟨info, hinfo, hdb⟩ := h
    exact ⟨info, hjoined.trans hinfo, hdb⟩
  | .joining n =>
    obtain ⟨hn, hgone, hfresh⟩ := h
    exact ⟨howners hn, fun hmem => hgone (hdeleted _ hn hmem), fun info hinfo => hfresh info (hjoined ▸ hinfo)⟩
  | .leaving db removed =>
    obtain ⟨hdb, hremoved, hgone, hnone⟩ := h
    exact ⟨hdb, howners hremoved, fun hmem => hgone (hdeleted _ hremoved hmem), hjoined.trans hnone⟩

theorem Registry.owner_unique (h : Registry a owners deleted slots) {db : DatabaseInfo} {id id' : String}
    (hid : (db, id) ∈ owners) (hid' : (db, id') ∈ owners) : id = id' :=
  congrArg Prod.snd (List.inj_on_of_nodup_map h.distinct hid hid' rfl)

/-- One federation takes a step; the others keep what they have. -/
theorem Registry.advance (h : Registry a owners deleted slots) (hcounter : 1 ≤ a'.nextFederationDbPrefix)
    (hbelow : ∀ p ∈ owners', p.1.Below a'.nextFederationDbPrefix) (hdistinct : (owners'.map Prod.fst).Nodup)
    (howners : owners ⊆ owners') (hdeleted : ∀ db ∈ deleted', db ∈ deleted ∨ (db, id) ∈ owners)
    (hother : ∀ other, other ≠ id → a'.joinedFederations other = a.joinedFederations other)
    (hjoined : ∀ info, a'.joinedFederations id = some info →
      (info.database, id) ∈ owners' ∧ info.database ∉ deleted')
    (hslot : slot.Fits a' owners' deleted' id) : Registry a' owners' deleted' (Function.update slots id slot) := by
  have hkept : ∀ other, other ≠ id → ∀ db, (db, other) ∈ owners → db ∈ deleted' → db ∈ deleted := by
    intro other hne db hdb hmem
    rcases hdeleted db hmem with hold | hown
    · exact hold
    · exact absurd (h.owner_unique hdb hown) hne
  refine ⟨hcounter, hbelow, hdistinct, ?_, ?_, ?_⟩
  · intro other info hinfo
    by_cases hid : other = id
    · subst hid
      exact hjoined info hinfo
    · rw [hother other hid] at hinfo
      obtain ⟨hown, hgone⟩ := h.joined other info hinfo
      exact ⟨howners hown, fun hmem => hgone (hkept other hid _ hown hmem)⟩
  · intro other
    by_cases hid : other = id
    · subst hid
      rw [Function.update_self]
      exact hslot
    · rw [Function.update_of_ne hid]
      exact (h.slots other).frame (hother other hid) howners (hkept other hid)
  · intro db hdb
    rcases hdeleted db hdb with hold | hown
    · obtain ⟨other, hdb'⟩ := h.gone db hold
      exact ⟨other, howners hdb'⟩
    · exact ⟨id, howners hown⟩

theorem Registry.setSlot (h : Registry a owners deleted slots) (hslot : slot.Fits a owners deleted id) :
    Registry a owners deleted (Function.update slots id slot) :=
  h.advance h.counter h.below h.distinct (fun _ hp => hp) (fun _ hdb => .inl hdb) (fun _ _ => rfl)
    (h.joined id) hslot

/-- A new number is of no database so far. -/
theorem Registry.allocate (h : Registry a owners deleted slots) (hnext : a.nextFederationDbPrefix + 1 < 2 ^ 64)
    (hnew : newFederationDbPrefix a = some (a', n)) :
    Registry a' ((.databasePrefix n, id) :: owners) deleted (Function.update slots id (.joining n)) := by
  obtain ⟨rfl, rfl⟩ : { a with nextFederationDbPrefix := (a.nextFederationDbPrefix + 1) % 2 ^ 64 } = a' ∧
      a.nextFederationDbPrefix = n := by simpa [newFederationDbPrefix] using hnew
  have hwrap : (a.nextFederationDbPrefix + 1) % 2 ^ 64 = a.nextFederationDbPrefix + 1 := Nat.mod_eq_of_lt hnext
  have hfresh : ∀ other, (.databasePrefix a.nextFederationDbPrefix, other) ∉ owners := by
    intro other hmem
    have hbelow := (h.below _ hmem).2
    omega
  apply h.advance
  · show 1 ≤ (a.nextFederationDbPrefix + 1) % 2 ^ 64
    omega
  · intro p hp
    show p.1.Below ((a.nextFederationDbPrefix + 1) % 2 ^ 64)
    rw [hwrap]
    rcases List.mem_cons.mp hp with rfl | hp
    · exact ⟨h.counter, Nat.lt_succ_self _⟩
    · exact (h.below p hp).mono (Nat.le_succ _)
  · rw [List.map_cons, List.nodup_cons]
    refine ⟨?_, h.distinct⟩
    intro hmem
    obtain ⟨⟨db, other⟩, hp, rfl⟩ := List.mem_map.mp hmem
    exact hfresh other hp
  · exact List.subset_cons_self _ _
  · exact fun db hdb => .inl hdb
  · exact fun _ _ => rfl
  · intro info hinfo
    obtain ⟨hown, hgone⟩ := h.joined id info hinfo
    exact ⟨List.mem_cons_of_mem _ hown, hgone⟩
  · refine ⟨List.mem_cons_self, ?_, ?_⟩
    · intro hmem
      obtain ⟨other, hown⟩ := h.gone _ hmem
      exact hfresh other hown
    · intro info hinfo heq
      exact hfresh id (heq ▸ (h.joined id info hinfo).1)

theorem Registry.register (h : Registry a owners deleted slots) (hslot : slots id = .joining n)
    (hnew : registerFederation id n a = some (a', ())) :
    Registry a' owners deleted (Function.update slots id (.live (.databasePrefix n))) := by
  unfold registerFederation at hnew
  split at hnew
  · cases hnew
  obtain rfl : { a with
      joinedFederations := Function.update a.joinedFederations id (some ⟨2, .databasePrefix n⟩) } = a' := by
    simpa using hnew
  have hfits := h.slots id
  rw [hslot] at hfits
  obtain ⟨hown, hgone, -⟩ := hfits
  apply h.advance
  · exact h.counter
  · exact h.below
  · exact h.distinct
  · exact fun _ hp => hp
  · exact fun _ hdb => .inl hdb
  · exact fun other hne => Function.update_of_ne hne _ _
  · intro info hinfo
    have hnew : Function.update a.joinedFederations id (some ⟨2, .databasePrefix n⟩) id = some info := hinfo
    rw [Function.update_self] at hnew
    obtain rfl := Option.some.inj hnew
    exact ⟨hown, hgone⟩
  · exact ⟨⟨2, .databasePrefix n⟩, Function.update_self _ _ _, rfl⟩

/-- The removed entry names the database that the client has open. -/
theorem Registry.remove (h : Registry a owners deleted slots) {db : DatabaseInfo} (hslot : slots id = .live db) :
    ∃ info, a.joinedFederations id = some info ∧
      Registry { a with joinedFederations := Function.update a.joinedFederations id none } owners deleted
        (Function.update slots id (.leaving db info.database)) := by
  have hfits := h.slots id
  rw [hslot] at hfits
  obtain ⟨info, hinfo, rfl⟩ := hfits
  obtain ⟨hown, hgone⟩ := h.joined id info hinfo
  refine ⟨info, hinfo, ?_⟩
  apply h.advance
  · exact h.counter
  · exact h.below
  · exact h.distinct
  · exact fun _ hp => hp
  · exact fun _ hdb => .inl hdb
  · exact fun other hne => Function.update_of_ne hne _ _
  · intro info' hinfo'
    have hnone : Function.update a.joinedFederations id none id = some info' := hinfo'
    rw [Function.update_self] at hnone
    cases hnone
  · exact ⟨rfl, hown, hgone, Function.update_self _ _ _⟩

theorem Registry.delete (h : Registry a owners deleted slots) {db removed : DatabaseInfo}
    (hslot : slots id = .leaving db removed) :
    Registry a owners (removed :: deleted) (Function.update slots id .absent) := by
  have hfits := h.slots id
  rw [hslot] at hfits
  obtain ⟨-, hown, -, hnone⟩ := hfits
  apply h.advance
  · exact h.counter
  · exact h.below
  · exact h.distinct
  · exact fun _ hp => hp
  · intro db hdb
    rcases List.mem_cons.mp hdb with rfl | hdb
    · exact .inr hown
    · exact .inl hdb
  · exact fun _ _ => rfl
  · intro info hinfo
    rw [hnone] at hinfo
    cases hinfo
  · trivial

/-- What a restart loads. -/
theorem Registry.load (h : Registry a owners deleted slots) : Registry a owners deleted fun id =>
    match a.joinedFederations id with
    | some info => if info.version < 2 then .absent else .loading info.database
    | none => .absent := by
  refine ⟨h.counter, h.below, h.distinct, h.joined, ?_, h.gone⟩
  intro id
  split
  · rename_i info hinfo
    split_ifs
    · trivial
    · exact ⟨info, hinfo, rfl⟩
  · trivial

/-- What a slot writes to is its own, and not deleted. -/
theorem Registry.uses (h : Registry a owners deleted slots) {db : DatabaseInfo}
    (hslot : slots id = .loading db ∨ slots id = .live db ∨ (∃ removed, slots id = .leaving db removed) ∨
      ∃ n, slots id = .joining n ∧ db = .databasePrefix n) : (db, id) ∈ owners ∧ db ∉ deleted := by
  have hfits := h.slots id
  rcases hslot with hslot | hslot | ⟨removed, hslot⟩ | ⟨n, hslot, rfl⟩
  · rw [hslot] at hfits
    obtain ⟨info, hinfo, rfl⟩ := hfits
    exact h.joined id info hinfo
  · rw [hslot] at hfits
    obtain ⟨info, hinfo, rfl⟩ := hfits
    exact h.joined id info hinfo
  · rw [hslot] at hfits
    obtain ⟨rfl, hown, hgone, -⟩ := hfits
    exact ⟨hown, hgone⟩
  · rw [hslot] at hfits
    exact ⟨hfits.1, hfits.2.1⟩

end

/-! ## What the spaces hold -/

section
variable {encode : ℕ → List UInt8} {s0 s : System} {author : Option String} {c : Command Space UInt8 Value}

@[simp] theorem exec_appState : (s.exec encode author c).appState = s.appState := by
  unfold System.exec; split <;> rfl

@[simp] theorem exec_slots : (s.exec encode author c).slots = s.slots := by
  unfold System.exec; split <;> rfl

@[simp] theorem exec_owners : (s.exec encode author c).owners = s.owners := by
  unfold System.exec; split <;> rfl

@[simp] theorem exec_deleted : (s.exec encode author c).deleted = s.deleted := by
  unfold System.exec; split <;> rfl

@[simp] theorem exec_log : (s.exec encode author c).log = s.log ++ [⟨author, c⟩] := by
  unfold System.exec; split <;> rfl

variable (encode s0 s) in
structure Stored : Prop where
  remembered : s.appStateInDb encode = some s.appState
  written : ∀ e ∈ s.log, e.Lawful s.owners
  contents : ∀ i : Space, i.Valid → s.space encode i = spaceAfter (s0.space encode i) (s.log.map Entry.command) i
  emptied : ∀ db ∈ s.deleted, s.space encode (.federation db) = KeySpaces.empty

/-- One transaction on a space that is not `AppState`'s. -/
theorem Stored.exec (hencode : Encodes encode) (h : Stored encode s0 s) (hc : c.space.Valid)
    (hlawful : (⟨author, c⟩ : Entry).Lawful s.owners) (hother : c.space ≠ .bridge .appState)
    (hdeleted : ∀ db ∈ s.deleted, db.Below (2 ^ 64) ∧ c.space ≠ .federation db) :
    Stored encode s0 (s.exec encode author c) := by
  refine ⟨?_, ?_, ?_, ?_⟩
  · have hsame := space_exec hencode s author hc (i := .bridge .appState) trivial
    rw [if_neg hother] at hsame
    unfold System.appStateInDb
    rw [hsame, exec_appState]
    exact h.remembered
  · intro e he
    rw [exec_log] at he
    rw [exec_owners]
    rcases List.mem_append.mp he with he | he
    · exact h.written e he
    · rw [List.mem_singleton.mp he]
      exact hlawful
  · intro i hi
    rw [space_exec hencode s author hc hi, exec_log, List.map_append, List.map_singleton, spaceAfter_snoc,
      ← h.contents i hi]
  · intro db hdb
    rw [exec_deleted] at hdb
    obtain ⟨hvalid, hne⟩ := hdeleted db hdb
    rw [space_exec hencode s author hc (show (Space.federation db).Valid from hvalid), if_neg hne]
    exact h.emptied db hdb

/-- A step that leaves the databases as they are. -/
theorem Stored.frame (h : Stored encode s0 s) {s' : System} (hglobal : s'.globalDb = s.globalDb)
    (hnamed : s'.namedDbs = s.namedDbs) (hlog : s'.log = s.log) (happ : s'.appState = s.appState)
    (howners : s.owners ⊆ s'.owners)
    (hdeleted : ∀ db ∈ s'.deleted, s.space encode (.federation db) = KeySpaces.empty) : Stored encode s0 s' := by
  refine ⟨?_, ?_, ?_, ?_⟩
  · unfold System.appStateInDb
    rw [space_congr hglobal hnamed, happ]
    exact h.remembered
  · intro e he
    exact (h.written e (hlog ▸ he)).mono howners
  · intro i hi
    rw [space_congr hglobal hnamed, hlog]
    exact h.contents i hi
  · intro db hdb
    rw [space_congr hglobal hnamed]
    exact hdeleted db hdb

@[simp] theorem commit_slots (a : AppState) : (s.commit encode a).slots = s.slots := exec_slots

@[simp] theorem commit_owners (a : AppState) : (s.commit encode a).owners = s.owners := exec_owners

@[simp] theorem commit_deleted (a : AppState) : (s.commit encode a).deleted = s.deleted := exec_deleted

theorem commit_log (a : AppState) : (s.commit encode a).log =
    s.log ++ [⟨none, .set (.bridge .appState) [] (some (.appStateJson a))⟩] := exec_log

theorem space_commit (hencode : Encodes encode) (a : AppState) {i : Space} (hi : i.Valid) :
    (s.commit encode a).space encode i = if .bridge .appState = i then
      (s.space encode i).set [] (some (.appStateJson a)) else s.space encode i := by
  have hexec := space_exec hencode s none (c := .set (.bridge .appState) [] (some (.appStateJson a))) trivial hi
  exact (space_congr rfl rfl).trans hexec

theorem Stored.commit (hencode : Encodes encode) (h : Stored encode s0 s)
    (hdeleted : ∀ db ∈ s.deleted, db.Below (2 ^ 64)) (a : AppState) : Stored encode s0 (s.commit encode a) := by
  refine ⟨?_, ?_, ?_, ?_⟩
  · unfold System.appStateInDb
    rw [space_commit hencode a (i := .bridge .appState) trivial, if_pos rfl]
    unfold Store.set
    rw [Function.update_self]
    rfl
  · intro e he
    rw [commit_log] at he
    rw [commit_owners]
    rcases List.mem_append.mp he with he | he
    · exact h.written e he
    · rw [List.mem_singleton.mp he]
      rfl
  · intro i hi
    rw [space_commit hencode a hi, commit_log, List.map_append, List.map_singleton, spaceAfter_snoc, ← h.contents i hi]
    rfl
  · intro db hdb
    rw [commit_deleted] at hdb
    rw [space_commit hencode a (show (Space.federation db).Valid from hdeleted db hdb), if_neg (by simp)]
    exact h.emptied db hdb

/-- The closure of `with_write_lock` sees what is in memory. -/
theorem Stored.withWriteLock {α : Type} (h : Stored encode s0 s) (closure : AppState → Option (AppState × α)) :
    s.withWriteLock encode closure = (closure s.appState).map fun r => (s.commit encode r.1, r.2) := by
  unfold System.withWriteLock
  rw [h.remembered]
  dsimp only
  cases closure s.appState with
  | none => rfl
  | some r => rfl

end

/-! ## Steps -/

section
variable (encode : ℕ → List UInt8) (s0 : System) (bound : ℕ) (s : System)

structure Inv : Prop where
  registry : Registry s.appState s.owners s.deleted s.slots
  stored : Stored encode s0 s
  bounded : s.appState.nextFederationDbPrefix ≤ bound
  small : bound < 2 ^ 64

end

section
variable {encode : ℕ → List UInt8} {s0 s : System} {bound : ℕ} {id : String}

theorem Inv.valid (h : Inv encode s0 bound s) {db : DatabaseInfo} (hown : (db, id) ∈ s.owners) : db.Below (2 ^ 64) :=
  (h.registry.below _ hown).mono (h.bounded.trans (Nat.le_of_lt h.small))

theorem Inv.gone (h : Inv encode s0 bound s) {db : DatabaseInfo} (hdb : db ∈ s.deleted) : db.Below (2 ^ 64) := by
  obtain ⟨id, hown⟩ := h.registry.gone db hdb
  exact h.valid hown

theorem Inv.mono (h : Inv encode s0 bound s) {larger : ℕ} (hle : bound ≤ larger) (hsmall : larger < 2 ^ 64) :
    Inv encode s0 larger s :=
  ⟨h.registry, h.stored, h.bounded.trans hle, hsmall⟩

/-- A step of one slot that leaves `AppState` and the databases as they are. -/
theorem Inv.setSlot (h : Inv encode s0 bound s) {slot : Slot} (hslot : slot.Fits s.appState s.owners s.deleted id) :
    Inv encode s0 bound (s.setSlot id slot) :=
  ⟨h.registry.setSlot hslot, h.stored.frame rfl rfl rfl rfl (fun _ hp => hp) h.stored.emptied, h.bounded, h.small⟩

/-- A new `AppState`, with the slot and the database that go with it. -/
theorem Inv.commit (hencode : Encodes encode) (h : Inv encode s0 bound s) {a : AppState} {slots : String → Slot}
    {owners : List (DatabaseInfo × String)} (howners : s.owners ⊆ owners)
    (hregistry : Registry a owners s.deleted slots) (hbounded : a.nextFederationDbPrefix ≤ bound) :
    Inv encode s0 bound { s.commit encode a with slots := slots, owners := owners } := by
  have hstored := h.stored.commit hencode (fun db hdb => h.gone hdb) a
  refine ⟨?_, ?_, hbounded, h.small⟩
  · show Registry a owners (s.commit encode a).deleted slots
    rw [commit_deleted]
    exact hregistry
  · refine hstored.frame rfl rfl rfl rfl ?_ hstored.emptied
    rw [commit_owners]
    exact howners

theorem Inv.commitSlot (hencode : Encodes encode) (h : Inv encode s0 bound s) {a : AppState} {slot : Slot}
    (hregistry : Registry a s.owners s.deleted (Function.update s.slots id slot))
    (hbounded : a.nextFederationDbPrefix ≤ bound) : Inv encode s0 bound ((s.commit encode a).setSlot id slot) := by
  unfold System.setSlot
  rw [commit_slots]
  refine h.commit hencode ?_ ?_ hbounded
  · rw [commit_owners]
    exact fun _ hp => hp
  · rw [commit_owners]
    exact hregistry

theorem Inv.join (hencode : Encodes encode) (h : Inv encode s0 bound s)
    (hnext : bound + 1 < 2 ^ 64) : Inv encode s0 (bound + 1) (join encode s id) := by
  unfold FederationDbs.join
  rw [h.stored.withWriteLock]
  show Inv encode s0 (bound + 1) { (s.commit encode _).setSlot id _ with owners := _ :: (s.commit encode _).owners }
  rw [commit_owners]
  unfold System.setSlot
  rw [commit_slots]
  have hbounded := h.bounded
  apply (h.mono (Nat.le_succ bound) hnext).commit hencode (List.subset_cons_self _ _)
  · apply h.registry.allocate _ rfl
    omega
  · exact (Nat.mod_le _ _).trans (Nat.succ_le_succ hbounded)

theorem Inv.space_valid (h : Inv encode s0 bound s) {e : Entry} (he : e.Lawful s.owners) : e.command.space.Valid := by
  unfold Entry.Lawful at he
  split at he
  · rename_i db hspace
    obtain ⟨id, -, hown⟩ := he
    rw [hspace]
    exact h.valid hown
  · rename_i tag hspace
    rw [hspace]
    trivial

/-- A transaction on a space that is not `AppState`'s and not deleted. -/
theorem Inv.exec (hencode : Encodes encode) (h : Inv encode s0 bound s) {author : Option String}
    {c : Command Space UInt8 Value} (hlawful : (⟨author, c⟩ : Entry).Lawful s.owners)
    (hother : c.space ≠ .bridge .appState) (hgone : ∀ db ∈ s.deleted, c.space ≠ .federation db) :
    Inv encode s0 bound (s.exec encode author c) := by
  refine ⟨?_, ?_, ?_, ?_⟩
  · simpa using h.registry
  · exact h.stored.exec hencode (h.space_valid hlawful) hlawful hother fun db hdb => ⟨h.gone hdb, hgone db hdb⟩
  · simpa using h.bounded
  · exact h.small

theorem Inv.execBridge (hencode : Encodes encode) (h : Inv encode s0 bound s) {c : Command Space UInt8 Value}
    {tag : BridgeDbPrefix} (hc : c.space = .bridge tag) (htag : tag ≠ .appState) :
    Inv encode s0 bound (s.exec encode none c) := by
  apply h.exec hencode
  · unfold Entry.Lawful
    rw [hc]
  · rw [hc]
    simpa using htag
  · intro db _
    rw [hc]
    exact Space.noConfusion

/-- What a federation does to its own database. -/
theorem Inv.execOwn (hencode : Encodes encode) (h : Inv encode s0 bound s) {c : Command Space UInt8 Value}
    {db : DatabaseInfo} (hc : c.space = .federation db) (hown : (db, id) ∈ s.owners) (hgone : db ∉ s.deleted) :
    Inv encode s0 bound (s.exec encode (some id) c) := by
  apply h.exec hencode
  · unfold Entry.Lawful
    rw [hc]
    exact ⟨id, rfl, hown⟩
  · rw [hc]
    exact Space.noConfusion
  · intro other hother heq
    obtain rfl : db = other := Space.federation.inj (hc.symm.trans heq)
    exact hgone hother

theorem Inv.write (hencode : Encodes encode) (h : Inv encode s0 bound s) (key : List UInt8) (value : Option Value) :
    Inv encode s0 bound (write encode s id key value) := by
  have hexec : ∀ db, (db, id) ∈ s.owners ∧ db ∉ s.deleted →
      Inv encode s0 bound (s.exec encode (some id) (.set (.federation db) key value)) :=
    fun db hdb => h.execOwn hencode rfl hdb.1 hdb.2
  unfold FederationDbs.write
  split
  · rename_i db hslot
    exact hexec db (h.registry.uses (.inl hslot))
  · rename_i db hslot
    exact hexec db (h.registry.uses (.inr (.inl hslot)))
  · rename_i db removed hslot
    exact hexec db (h.registry.uses (.inr (.inr (.inl ⟨removed, hslot⟩))))
  · rename_i n hslot
    exact hexec _ (h.registry.uses (.inr (.inr (.inr ⟨n, hslot, rfl⟩))))
  · exact h
  · exact h

theorem Inv.finish (hencode : Encodes encode) (h : Inv encode s0 bound s) : Inv encode s0 bound (finish encode s id) := by
  unfold FederationDbs.finish
  split
  · rename_i n hslot
    rw [h.stored.withWriteLock]
    cases hnew : registerFederation id n s.appState with
    | none => exact h.setSlot trivial
    | some r =>
      obtain ⟨a, ⟨⟩⟩ := r
      have hcounter : a.nextFederationDbPrefix = s.appState.nextFederationDbPrefix := by
        unfold registerFederation at hnew
        split at hnew
        · cases hnew
        · cases hnew
          rfl
      exact h.commitSlot hencode (h.registry.register hslot hnew) (hcounter ▸ h.bounded)
  · rename_i db hslot
    have hfits := h.registry.slots id
    rw [hslot] at hfits
    exact h.setSlot hfits
  · exact h

theorem Inv.fail (h : Inv encode s0 bound s) : Inv encode s0 bound (fail s id) := by
  unfold FederationDbs.fail
  split
  · exact h.setSlot trivial
  · exact h.setSlot trivial
  · exact h.setSlot trivial
  · exact h

theorem Inv.reopen (h : Inv encode s0 bound s) : Inv encode s0 bound (reopen s id) := by
  unfold FederationDbs.reopen
  split
  · split
    · exact h.setSlot trivial
    · rename_i info hinfo
      exact h.setSlot ⟨info, hinfo, rfl⟩
  · exact h

theorem Inv.leave (hencode : Encodes encode) (h : Inv encode s0 bound s) : Inv encode s0 bound (leave encode s id) := by
  unfold FederationDbs.leave
  split
  · rename_i db hslot
    rw [h.stored.withWriteLock]
    obtain ⟨info, hinfo, hregistry⟩ := h.registry.remove hslot
    unfold removeFederation
    rw [hinfo]
    exact h.commitSlot hencode hregistry h.bounded
  · exact h

theorem Inv.delete (hencode : Encodes encode) (h : Inv encode s0 bound s) : Inv encode s0 bound (delete encode s id) := by
  unfold FederationDbs.delete
  split
  · rename_i db removed hslot
    have hfits := h.registry.slots id
    rw [hslot] at hfits
    obtain ⟨rfl, hown, hgone, -⟩ := hfits
    have hexec : Inv encode s0 bound (s.exec encode (some id) (.clear (.federation db))) := h.execOwn hencode rfl hown hgone
    refine ⟨?_, ?_, hexec.bounded, h.small⟩
    · simpa [System.setSlot] using h.registry.delete hslot
    · refine hexec.stored.frame rfl rfl rfl rfl (fun _ hp => hp) ?_
      intro other hother
      rcases List.mem_cons.mp hother with rfl | hother
      · have hvalid : (Space.federation other).Valid := h.valid hown
        have hclear := space_exec hencode s (some id) (c := .clear (.federation other)) hvalid hvalid
        exact hclear.trans (if_pos rfl)
      · exact hexec.stored.emptied other (by simpa using hother)
  · exact h

theorem Inv.restart (h : Inv encode s0 bound s) : Inv encode s0 bound (restart encode s) := by
  unfold FederationDbs.restart
  rw [h.stored.remembered]
  exact ⟨h.registry.load, h.stored.frame rfl rfl rfl rfl (fun _ hp => hp) h.stored.emptied, h.bounded, h.small⟩

theorem Inv.updateAppState (hencode : Encodes encode) (h : Inv encode s0 bound s) (others : List UInt8) :
    Inv encode s0 bound (updateAppState encode s others) := by
  unfold FederationDbs.updateAppState
  rw [h.stored.withWriteLock]
  show Inv encode s0 bound (s.commit encode { s.appState with others := others })
  have hregistry : Registry { s.appState with others := others } s.owners s.deleted s.slots :=
    ⟨h.registry.counter, h.registry.below, h.registry.distinct, h.registry.joined,
      fun id => (h.registry.slots id).frame rfl (fun _ hp => hp) (fun _ _ hmem => hmem), h.registry.gone⟩
  refine ⟨?_, h.stored.commit hencode (fun db hdb => h.gone hdb) _, h.bounded, h.small⟩
  rw [commit_owners, commit_deleted, commit_slots]
  exact hregistry

theorem Inv.scheduleFiClientReset (hencode : Encodes encode) (h : Inv encode s0 bound s) (environment : RuntimeEnvironment) :
    Inv encode s0 bound (scheduleFiClientReset encode s environment) := by
  unfold FederationDbs.scheduleFiClientReset
  split_ifs
  · exact h.execBridge hencode rfl (by decide)
  · exact h

theorem Inv.applyScheduledFiClientReset (hencode : Encodes encode) (h : Inv encode s0 bound s)
    (environment : RuntimeEnvironment) : Inv encode s0 bound (applyScheduledFiClientReset encode s environment) := by
  unfold FederationDbs.applyScheduledFiClientReset
  split_ifs
  · exact h
  · exact h
  · exact (h.execBridge hencode rfl (by decide)).execBridge hencode rfl (by decide)

theorem Inv.act (hencode : Encodes encode) (h : Inv encode s0 bound s) (hnext : bound + 1 < 2 ^ 64) (id : String)
    (action : Action) : Inv encode s0 (bound + 1) (act encode s id action) := by
  have hlater : ∀ s', Inv encode s0 bound s' → Inv encode s0 (bound + 1) s' :=
    fun s' h' => h'.mono (Nat.le_succ bound) hnext
  cases action with
  | join =>
    show Inv encode s0 (bound + 1) (if s.slots id = .absent then FederationDbs.join encode s id else s)
    split_ifs
    · exact h.join hencode hnext
    · exact hlater _ h
  | write key value => exact hlater _ (h.write hencode key value)
  | finish => exact hlater _ (h.finish hencode)
  | fail => exact hlater _ h.fail
  | reopen => exact hlater _ h.reopen
  | leave => exact hlater _ (h.leave hencode)
  | delete => exact hlater _ (h.delete hencode)

/-- A step hands out at most one number. -/
theorem Inv.step (hencode : Encodes encode) (h : Inv encode s0 bound s) (hnext : bound + 1 < 2 ^ 64)
    (environment : RuntimeEnvironment) (e : Event) : Inv encode s0 (bound + 1) (step encode environment s e) := by
  have hlater : ∀ s', Inv encode s0 bound s' → Inv encode s0 (bound + 1) s' :=
    fun s' h' => h'.mono (Nat.le_succ bound) hnext
  cases e with
  | federation id action => exact h.act hencode hnext id action
  | bridge tag key value =>
    show Inv encode s0 (bound + 1) (if _ then s else s.exec encode none (.set (.bridge tag) key value))
    split_ifs with htag
    · exact hlater _ h
    · exact hlater _ (h.execBridge hencode rfl fun heq => htag (.inl heq))
  | updateAppState others => exact hlater _ (h.updateAppState hencode others)
  | scheduleFiClientReset => exact hlater _ (h.scheduleFiClientReset hencode environment)
  | applyScheduledFiClientReset => exact hlater _ (h.applyScheduledFiClientReset hencode environment)
  | restart => exact hlater _ h.restart

end

/-! ## Runs -/

section
variable {encode : ℕ → List UInt8} {s0 : System}

/-- A start: nothing is open, and the databases of the joined federations are distinct. -/
structure Startable (encode : ℕ → List UInt8) (s0 : System) : Prop where
  remembered : s0.appStateInDb encode = some s0.appState
  closed : ∀ id, s0.slots id = .absent
  counter : 1 ≤ s0.appState.nextFederationDbPrefix
  below : ∀ p ∈ s0.owners, p.1.Below s0.appState.nextFederationDbPrefix
  distinct : (s0.owners.map Prod.fst).Nodup
  joined : ∀ id info, s0.appState.joinedFederations id = some info → (info.database, id) ∈ s0.owners
  history : s0.log = [] ∧ s0.deleted = []

theorem inv_start (h : Startable encode s0) (hsmall : s0.appState.nextFederationDbPrefix < 2 ^ 64) :
    Inv encode s0 s0.appState.nextFederationDbPrefix s0 := by
  obtain ⟨hlog, hdeleted⟩ := h.history
  refine ⟨⟨h.counter, h.below, h.distinct, ?_, ?_, ?_⟩, ⟨h.remembered, ?_, ?_, ?_⟩, Nat.le_refl _, hsmall⟩
  · intro id info hinfo
    rw [hdeleted]
    exact ⟨h.joined id info hinfo, List.not_mem_nil⟩
  · intro id
    rw [h.closed id]
    trivial
  · rw [hdeleted]
    exact fun _ hdb => absurd hdb List.not_mem_nil
  · rw [hlog]
    exact fun _ he => absurd he List.not_mem_nil
  · intro i _
    rw [hlog]
    rfl
  · rw [hdeleted]
    exact fun _ hdb => absurd hdb List.not_mem_nil

theorem inv_run (hencode : Encodes encode) (environment : RuntimeEnvironment) (h : Startable encode s0)
    {es : List Event} (hes : s0.appState.nextFederationDbPrefix + es.length < 2 ^ 64) :
    Inv encode s0 (s0.appState.nextFederationDbPrefix + es.length) (run encode environment s0 es) := by
  induction es using List.reverseRecOn with
  | nil => exact inv_start h hes
  | append_singleton es e ih =>
    rw [List.length_append, List.length_singleton, ← Nat.add_assoc] at hes ⊢
    unfold run
    rw [List.foldl_append]
    exact (ih (Nat.lt_of_succ_lt hes)).step hencode hes environment e

theorem run_append (encode : ℕ → List UInt8) (environment : RuntimeEnvironment) (s0 : System) (es es' : List Event) :
    run encode environment s0 (es ++ es') = run encode environment (run encode environment s0 es) es' :=
  List.foldl_append

end

/-! ## A new install, and a run from it -/

/-- A u64 in one byte, or after a marker in eight. -/
def encodeU64 (n : ℕ) : List UInt8 :=
  if n < 0xFD then [.ofNat n]
  else [0xFF, .ofNat (n / 2 ^ 56), .ofNat (n / 2 ^ 48), .ofNat (n / 2 ^ 40), .ofNat (n / 2 ^ 32), .ofNat (n / 2 ^ 24),
    .ofNat (n / 2 ^ 16), .ofNat (n / 2 ^ 8), .ofNat n]

theorem ofNat_byte_inj {m n : ℕ} (h : UInt8.ofNat m = UInt8.ofNat n) : m % 256 = n % 256 := by
  have hbytes := congrArg UInt8.toNat h
  rwa [UInt8.toNat_ofNat', UInt8.toNat_ofNat'] at hbytes

theorem encodes_encodeU64 : Encodes encodeU64 := by
  refine ⟨?_, rfl⟩
  intro m n hm hn hpre
  unfold encodeU64 at hpre
  split_ifs at hpre with hsmall hsmall' hsmall'
  · have hbyte := ofNat_byte_inj (List.cons.inj (hpre.eq_of_length rfl)).1
    omega
  · have hbyte : m % 256 = 255 % 256 := ofNat_byte_inj (List.cons_prefix_cons.mp hpre).1
    omega
  · have hlength := hpre.length_le
    simp at hlength
  · have hbytes := hpre.eq_of_length rfl
    simp only [List.cons.injEq, and_true, true_and] at hbytes
    obtain ⟨h7, h6, h5, h4, h3, h2, h1, h0⟩ := hbytes
    have := ofNat_byte_inj h7
    have := ofNat_byte_inj h6
    have := ofNat_byte_inj h5
    have := ofNat_byte_inj h4
    have := ofNat_byte_inj h3
    have := ofNat_byte_inj h2
    have := ofNat_byte_inj h1
    have := ofNat_byte_inj h0
    omega

/-- A device with nothing joined. -/
def newInstall : System :=
  let appState : AppState := ⟨firstFederationDbPrefix, fun _ => none, []⟩
  { appState := appState
    slots := fun _ => .absent
    globalDb := KeySpaces.empty.set [bridgeDbPrefix, BridgeDbPrefix.appState.toByte] (some (.appStateJson appState))
    namedDbs := fun _ => KeySpaces.empty
    owners := []
    log := []
    deleted := [] }

theorem startable_newInstall : Startable encodeU64 newInstall := by
  refine ⟨rfl, fun _ => rfl, Nat.le_refl 1, ?_, List.nodup_nil, ?_, rfl, rfl⟩
  · exact fun _ hp => absurd hp List.not_mem_nil
  · exact fun _ _ hinfo => absurd hinfo (by simp [newInstall])

/-- Two federations are joined, and one is left again while a reset of the FI client is asked for. -/
def joinedAndLeft : List Event :=
  [.federation "a" .join, .federation "a" (.write [7] (some (.bytes [1]))), .federation "a" .finish,
    .federation "b" .join, .federation "b" .finish, .federation "b" (.write [7] (some (.bytes [2]))),
    .scheduleFiClientReset, .federation "a" .leave, .federation "a" .delete]

def restartedAndRejoined : List Event :=
  [.restart, .applyScheduledFiClientReset, .federation "a" .join, .federation "a" .finish]

/-! ## Isolation -/

section
variable {encode : ℕ → List UInt8} {s0 : System}

variable (encode s0) in
structure Isolated (s : System) : Prop where
  distinct : (s.owners.map Prod.fst).Nodup
  joined : ∀ id info, s.appState.joinedFederations id = some info → (info.database, id) ∈ s.owners
  written : ∀ e ∈ s.log, e.Lawful s.owners
  contents : ∀ i : Space, i.Valid → s.space encode i = spaceAfter (s0.space encode i) (s.log.map Entry.command) i
  untouched : ∀ db : DatabaseInfo, db.Below (2 ^ 64) → (∀ id, (db, id) ∉ s.owners) →
    s.space encode (.federation db) = s0.space encode (.federation db)

/-- A database belongs to one join of one federation, and holds what that federation wrote. -/
theorem databases_isolated (hencode : Encodes encode) (environment : RuntimeEnvironment) (h : Startable encode s0)
    {es : List Event} (hes : s0.appState.nextFederationDbPrefix + es.length < 2 ^ 64) :
    Isolated encode s0 (run encode environment s0 es) := by
  have hinv := inv_run hencode environment h hes
  refine ⟨hinv.registry.distinct, ?_, hinv.stored.written, hinv.stored.contents, ?_⟩
  · exact fun id info hinfo => (hinv.registry.joined id info hinfo).1
  · intro db hdb hnone
    rw [hinv.stored.contents (.federation db) hdb]
    apply spaceAfter_of_none
    intro c hc heq
    obtain ⟨e, he, rfl⟩ := List.mem_map.mp hc
    have hlawful := hinv.stored.written e he
    unfold Entry.Lawful at hlawful
    rw [heq] at hlawful
    obtain ⟨id, -, hown⟩ := hlawful
    exact hnone id hown

theorem databases_isolated_demo :
    Isolated encodeU64 newInstall (run encodeU64 .staging newInstall (joinedAndLeft ++ restartedAndRejoined)) :=
  databases_isolated encodes_encodeU64 .staging startable_newInstall (by decide)

/-- The assertion of `with_read_lock` never fails. -/
theorem appState_remembered (hencode : Encodes encode) (environment : RuntimeEnvironment) (h : Startable encode s0)
    {es : List Event} (hes : s0.appState.nextFederationDbPrefix + es.length < 2 ^ 64) :
    (run encode environment s0 es).appStateInDb encode = some (run encode environment s0 es).appState :=
  (inv_run hencode environment h hes).stored.remembered

theorem appState_remembered_demo :
    (run encodeU64 .staging newInstall (joinedAndLeft ++ restartedAndRejoined)).appStateInDb encodeU64 =
      some (run encodeU64 .staging newInstall (joinedAndLeft ++ restartedAndRejoined)).appState :=
  appState_remembered encodes_encodeU64 .staging startable_newInstall (by decide)

end

end FederationDbs
