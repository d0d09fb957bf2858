import ReticulumPi.Lib.PyStr
import ReticulumPi.Lib.Seen
import ReticulumPi.Lib.Transition

/-!
# Messages that come twice

MeshCore floods its messages, and the radio says of none which packet it came
in. So the gateway takes a message for a duplicate when it has published one
with the same sender, type and text less than the TTL ago. The sender is looked
up among the contacts, which change with time: by the prefix of its public key,
or, in a channel, by the name before the text. The channel does not count.

The table of the messages is cleared of what is out of date every so many
insertions, and when it is too long; if it is still too long then, the newest
entries stay.

In every run, of messages and changes of the contacts, at times that do not
decrease (`deduplicates_messages`):

* a message is dropped only if one with the same sender, type and text was
  published less than the TTL ago;
* a message of which one with the same sender, type and text was published less
  than the TTL ago is dropped, unless as many others as the table holds were
  published at that time or later.
-/

namespace ReticulumPi.Meshcore.Dedup

/-! ## Senders -/

abbrev Text := List Char

inductive MsgType where
  | direct
  | broadcast
deriving DecidableEq

/-- The payload of a message event. -/
structure Message where
  text : Text
  channelIdx : Option ℤ := none
  pubkeyPrefix : Text := []
  msgType : MsgType
deriving DecidableEq

/-- `_contact_cache`: the advertised names of the contacts, by their keys. -/
abbrev Contacts := Dict Text Text

/-- `_resolve_pubkey_prefix`, without the name -/
def resolvePubkeyPrefix (contacts : Contacts) (pubkeyPrefix : Text) : Text :=
  match contacts.entries.find? fun e => pubkeyPrefix.isPrefixOf e.1 with
  | some e => e.1
  | none => pubkeyPrefix

/-- `_resolve_name_to_key` -/
def resolveNameToKey (contacts : Contacts) (name : Text) : Text :=
  if name = [] then []
  else
    match contacts.entries.find? fun e => e.2 = name with
    | some e => e.1
    | none => []

/-- `text.find(": ")` -/
def findSeparator (text : Text) : Option ℕ :=
  text.tails.findIdx? fun t => [':', ' '].isPrefixOf t

/-- `_split_channel_sender` -/
def splitChannelSender (text : Text) : Text × Text :=
  match findSeparator text with
  | none => ([], text)
  | some idx =>
    if idx = 0 ∨ 40 < idx then ([], text)
    else if '\n' ∈ text.take idx ∨ '/' ∈ text.take idx then ([], text)
    else (text.take idx, text.drop (idx + 2))

/-- The sender of a message and its text, as `_handle_incoming_message` takes
    them: a known name before the text of a channel is cut off. -/
def identify (contacts : Contacts) (m : Message) : Text × Text :=
  if m.pubkeyPrefix ≠ [] then (resolvePubkeyPrefix contacts m.pubkeyPrefix, m.text)
  else if m.msgType = .broadcast then
    let (name, body) := splitChannelSender m.text
    let key := if name = [] then [] else resolveNameToKey contacts name
    if key = [] then ([], m.text) else (key, body)
  else ([], m.text)

/-! ## The table -/

/-- `dedup_ttl_seconds` and `dedup_max_entries`, as they are configured, and the
    functions of Python's strings that the keys are made with; `hash` has no
    collisions. -/
structure Config where
  dedupTtlSeconds : ℚ := 60
  dedupMaxEntries : ℤ := 256
  lower : Text → Text
  hash : Text → ℤ
  hash_injective : Function.Injective hash

variable (c : Config)

/-- `_dedup_ttl_seconds` -/
def Config.ttl : ℚ := max 10 c.dedupTtlSeconds

/-- `_dedup_max_entries` -/
def Config.maxEntries : ℕ := (max 32 c.dedupMaxEntries).toNat

/-- `_seen_msg_cleanup_interval` -/
def Config.cleanupInterval : ℕ := max 16 (c.maxEntries / 8)

abbrev Key := Text × MsgType × ℤ

/-- `dedup_key` -/
def Config.dedupKey (sender : Text) (msgType : MsgType) (text : Text) : Key :=
  (c.lower sender, msgType, c.hash text)

structure Table where
  /-- `_seen_msg_keys` -/
  seen : Dict Key ℚ := ∅
  /-- `_seen_msg_inserts_since_cleanup` -/
  inserts : ℕ := 0

/-- The clean-up. -/
def Config.cleanUp (now : ℚ) (seen : Dict Key ℚ) : Dict Key ℚ :=
  let seen := seen.filter fun t => decide (now - c.ttl < t)
  if c.maxEntries < seen.entries.length then Seen.newest c.maxEntries seen else seen

/-- The key was recorded within the TTL. -/
def Config.isDuplicate (table : Table) (key : Key) (now : ℚ) : Bool :=
  (table.seen.get? key).any fun t => decide (now - c.ttl < t)

/-- A key is recorded. -/
def Config.record (table : Table) (key : Key) (now : ℚ) : Table :=
  let seen := table.seen.set key now
  if c.cleanupInterval ≤ table.inserts + 1 ∨ c.maxEntries < seen.entries.length then
    ⟨c.cleanUp now seen, 0⟩
  else ⟨seen, table.inserts + 1⟩

/-! ## Runs -/

/-- A message that was published: as it came, with its sender and its text. -/
structure Published where
  message : Message
  sender : Text
  text : Text
  time : ℚ

/-- The gateway, and what it has published, the latest first. -/
structure Gateway where
  contacts : Contacts := ∅
  table : Table := {}
  /-- The time of the last message. -/
  now : ℚ := 0
  published : List Published := []

inductive Event where
  /-- The contacts change. -/
  | contacts (contacts : Contacts)
  | message (m : Message) (now : ℚ)

/-- What comes of a message. -/
inductive Outcome where
  /-- It is blank. -/
  | ignored
  /-- It is taken for a duplicate. -/
  | dropped
  | published
deriving DecidableEq

section Handle

variable (c : Config)

/-- What `_handle_incoming_message` makes of a message. -/
def Config.outcome (g : Gateway) (m : Message) (now : ℚ) : Outcome :=
  let (sender, text) := identify g.contacts m
  if PyStr.strip text = [] then .ignored
  else if c.isDuplicate g.table (c.dedupKey sender m.msgType text) now then .dropped
  else .published

/-- `_handle_incoming_message` -/
def Config.handleIncomingMessage (g : Gateway) (m : Message) (now : ℚ) : Gateway :=
  let (sender, text) := identify g.contacts m
  match c.outcome g m now with
  | .ignored | .dropped => { g with now := now }
  | .published =>
    { g with
      now := now, table := c.record g.table (c.dedupKey sender m.msgType text) now
      published := ⟨m, sender, text, now⟩ :: g.published }

/-- A message comes not before the last one. -/
def Config.next (g : Gateway) : Event → Option Gateway
  | .contacts contacts => some { g with contacts := contacts }
  | .message m now => if g.now ≤ now then some (c.handleIncomingMessage g m now) else none

def Config.system : Transition Gateway Event :=
  .ofNext (fun g => g.table = {} ∧ g.published = []) c.next

end Handle

/-! ## What is claimed of a message -/

/-- The key of what was published. -/
def Config.keyOf (p : Published) : Key := c.dedupKey p.sender p.message.msgType p.text

/-- The messages published, by their keys. -/
def Config.recorded (g : Gateway) : List (Key × ℚ) :=
  g.published.map fun p => (c.keyOf p, p.time)

/-- The message that was published has the sender, the type and the text that the
    next one has. -/
structure Config.Same (g : Gateway) (p : Published) (m : Message) : Prop where
  sender : c.lower p.sender = c.lower (identify g.contacts m).1
  msgType : p.message.msgType = m.msgType
  text : p.text = (identify g.contacts m).2

/-- What is said of the next message. -/
structure Config.Deduplicates (g : Gateway) (m : Message) (now : ℚ) : Prop where
  /-- What is dropped was published within the TTL. -/
  sound : c.outcome g m now = .dropped → ∃ p ∈ g.published, c.Same g p m ∧ now - p.time < c.ttl
  /-- What was published within the TTL is dropped, unless as many others were published since as
      the table holds. -/
  complete : ∀ p ∈ g.published, c.Same g p m → now - p.time < c.ttl →
    c.outcome g m now = .dropped ∨
      c.maxEntries ≤ Seen.othersSince (c.recorded g) (c.keyOf p) p.time

variable {c : Config} {g g' : Gateway} {m : Message} {p : Published} {key : Key} {now : ℚ}

theorem trims_cleanUp {seen : Dict Key ℚ} :
    Seen.Trims c.ttl now c.maxEntries seen (c.cleanUp now seen) := Seen.trims_newest

theorem trims_record {table : Table} :
    Seen.Trims c.ttl now c.maxEntries (table.seen.set key now) (c.record table key now).seen := by
  rw [Config.record]
  split_ifs
  · exact trims_cleanUp
  · exact Seen.trims_self

/-- The invariant of all runs. -/
structure Sound (c : Config) (g : Gateway) : Prop where
  faithful : Seen.Faithful c.ttl c.maxEntries g.table.seen g.now (c.recorded g)
  notBlank : ∀ p ∈ g.published, PyStr.strip p.text ≠ []

/-- The three ways in which a message is handled. -/
theorem handle_cases (c : Config) (g : Gateway) (m : Message) (now : ℚ) :
    c.handleIncomingMessage g m now = { g with now := now } ∨
      ∃ sender text, PyStr.strip text ≠ [] ∧ c.handleIncomingMessage g m now =
        { g with
          now := now, table := c.record g.table (c.dedupKey sender m.msgType text) now
          published := ⟨m, sender, text, now⟩ :: g.published } := by
  rw [Config.handleIncomingMessage, Config.outcome]
  dsimp only
  split_ifs with hblank hdup
  · exact .inl rfl
  · exact .inl rfl
  · exact .inr ⟨_, _, hblank, rfl⟩

theorem Sound.next {e : Event} (h : Sound c g) (hs : c.next g e = some g') : Sound c g' := by
  cases e with
  | contacts contacts =>
    cases hs
    exact ⟨h.faithful, h.notBlank⟩
  | message m now =>
    rw [Config.next] at hs
    split_ifs at hs with hnow
    cases hs
    rcases handle_cases c g m now with heq | ⟨sender, text, hblank, heq⟩
    · rw [heq]
      exact ⟨h.faithful.later hnow, h.notBlank⟩
    · rw [heq]
      refine ⟨h.faithful.record hnow trims_record, fun p hp => ?_⟩
      rcases List.mem_cons.1 hp with rfl | hp
      · exact hblank
      · exact h.notBlank p hp

theorem sound_of_reachable (h : c.system.Reachable g) : Sound c g := by
  refine Transition.Reach.induction (I := Sound c) (fun g hg => ?_)
    (fun _ _ _ hg _ hstep => hg.next hstep) h
  obtain ⟨htable, hpub⟩ := hg
  refine ⟨?_, fun p hp => ?_⟩
  · rw [htable, Config.recorded, hpub]
    exact Seen.faithful_empty
  · rw [hpub] at hp
    cases hp

/-- The same messages have the same key. -/
theorem keyOf_eq_iff : c.keyOf p = c.dedupKey (identify g.contacts m).1 m.msgType
    (identify g.contacts m).2 ↔ c.Same g p m := by
  rw [Config.keyOf, Config.dedupKey, Config.dedupKey, Prod.mk.injEq, Prod.mk.injEq,
    c.hash_injective.eq_iff]
  exact ⟨fun h => ⟨h.1, h.2.1, h.2.2⟩, fun h => ⟨h.sender, h.msgType, h.text⟩⟩

/-- What becomes of the next message, in every run. -/
theorem deduplicates_messages (c : Config) (g : Gateway) (m : Message) (now : ℚ)
    (h : c.system.Reachable g) (hnow : g.now ≤ now) : c.Deduplicates g m now := by
  have hs := sound_of_reachable h
  have hfaithful := hs.faithful.later hnow
  constructor
  · intro hdropped
    rw [Config.outcome] at hdropped
    dsimp only at hdropped
    split_ifs at hdropped with hblank hdup
    obtain ⟨t, ht, hdate⟩ := hfaithful.exists_recorded hdup
    obtain ⟨p, hp, heq⟩ := List.mem_map.1 ht
    obtain ⟨hkey, rfl⟩ := Prod.mk.inj heq
    exact ⟨p, hp, keyOf_eq_iff.1 hkey, hdate⟩
  · intro p hp hsame hdate
    have hkey := keyOf_eq_iff.2 hsame
    have hmem : (c.keyOf p, p.time) ∈ c.recorded g := List.mem_map.2 ⟨p, hp, rfl⟩
    refine (hfaithful.seen_or hmem hdate).imp_left fun hseen => ?_
    rw [hkey] at hseen
    have hblank : PyStr.strip (identify g.contacts m).2 ≠ [] := by
      rw [← hsame.text]
      exact hs.notBlank p hp
    rw [Config.outcome]
    dsimp only
    rw [if_neg hblank]
    exact if_pos hseen

/-! ## Two channels -/

/-- A number for each text. -/
def textNumber (text : Text) : ℤ :=
  (Nat.ofDigits 0x110001 (text.map fun ch => ch.toNat + 1) : ℕ)

theorem textNumber_injective : Function.Injective textNumber := by
  have hdigits : ∀ text : Text, Nat.digits 0x110001
      (Nat.ofDigits 0x110001 (text.map fun ch => ch.toNat + 1)) =
        text.map fun ch => ch.toNat + 1 := by
    intro text
    refine Nat.digits_ofDigits _ (by norm_num) _ (fun d hd => ?_) fun hne => ?_
    · obtain ⟨ch, -, rfl⟩ := List.mem_map.1 hd
      have hvalid : ch.toNat < 0xd800 ∨ 0xdfff < ch.toNat ∧ ch.toNat < 0x110000 := ch.valid
      omega
    · rw [List.getLast_map]
      exact Nat.succ_ne_zero _
  intro text text' heq
  have hnat := Int.ofNat.inj heq
  have hmap := congrArg (Nat.digits 0x110001) hnat
  rw [hdigits, hdigits] at hmap
  refine (List.map_injective_iff.2 fun ch ch' h => ?_) hmap
  exact Char.toNat_inj.1 (Nat.succ.inj h)

/-- The defaults. -/
def standard : Config where
  lower := fun text => text.map Char.toLower
  hash := textNumber
  hash_injective := textNumber_injective

/-- The same text of the same sender in a channel. -/
def hello (channel : ℤ) : Message where
  text := "Alice: hello".toList
  channelIdx := some channel
  msgType := .broadcast

/-- A first message. -/
def greeted : Gateway := standard.handleIncomingMessage {} (hello 0) 0

theorem reachable_greeted : standard.system.Reachable greeted := by
  have hinit : standard.system.Reachable {} := Transition.Reach.init ⟨rfl, rfl⟩
  have hstep : standard.next {} (.message (hello 0) 0) = some greeted := by
    rw [Config.next]
    exact if_pos (by decide)
  exact hinit.step hstep

/-- After the first message a copy is dropped. -/
theorem deduplicates_greeted : greeted.published.length = 1 ∧
    standard.Deduplicates greeted (hello 0) 1 :=
  ⟨by decide +kernel,
    deduplicates_messages standard greeted (hello 0) 1 reachable_greeted (by decide +kernel)⟩

/-- The same text in another channel is dropped, though it was not published there. -/
theorem dropped_in_other_channel :
    ¬ ∀ (c : Config) (g : Gateway) (m : Message) (now : ℚ), c.system.Reachable g → g.now ≤ now →
      c.outcome g m now = .dropped → ∃ p ∈ g.published, p.message = m ∧ now - p.time < c.ttl := by
  intro h
  obtain ⟨p, hp, hm, -⟩ := h standard greeted (hello 1) 1 reachable_greeted (by decide +kernel)
    (by decide +kernel)
  have hall : greeted.published.all (fun p => p.message ≠ hello 1) = true := by decide +kernel
  exact absurd hm (by simpa using List.all_eq_true.1 hall p hp)

end ReticulumPi.Meshcore.Dedup
