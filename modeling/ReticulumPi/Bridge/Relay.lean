import ReticulumPi.Bridge.Mtu
import ReticulumPi.Lib.Fallible
import ReticulumPi.Lib.PyStr

/-!
# The mesh bridge

`mesh_bridge.py`: what comes in from one of the two meshes is sent to the other
one under a tag that says where it comes from. The same tag, at the beginning
of a text that comes in, is how the bridge knows its own messages: the texts
that match the loop pattern are dropped.

A pattern of the configuration is the function that tells the texts that it
matches (`re.match` for the loop pattern, `search` for the others).
-/

namespace ReticulumPi.Bridge

/-- The mesh that a message comes in from, `"mesh"` or `"core"`. -/
inductive Origin
  | mesh
  | core
  deriving DecidableEq, Repr

/-- The other mesh. -/
def Origin.opposite : Origin → Origin
  | .mesh => .core
  | .core => .mesh

/-! ## The configuration -/

/-- A member of `channel_pairs`. -/
structure ChannelPair where
  meshtastic : ℤ
  meshcore : ℤ
  direction : String
  enabled : Bool
  allowRegex : Option (List Char → Bool)
  denyRegex : Option (List Char → Bool)

/-- A member of `dm_pairs`. -/
structure DmPair where
  meshtastic : List Char
  meshcore : List Char

/-- `channel_pairs` where the configuration has none. -/
def defaultPairs : List ChannelPair := [⟨0, 0, "both", true, none, none⟩]

/-- `^\[via (Mesh|Core)\]\s`, past its bracket: the text goes on with `tag` and a
    blank. -/
def matchTag : List Char → List Char → Bool
  | [], c :: _ => PyStr.isSpace c
  | t :: tag, c :: text => t == c && matchTag tag text
  | _, [] => false

/-- `_DEFAULT_LOOP_REGEX.match`. -/
def defaultLoopRegex (text : List Char) : Bool :=
  matchTag "[via Mesh]".toList text || matchTag "[via Core]".toList text

/-- The configuration, with the defaults of `validate_config` and `start`. -/
structure Config where
  channelPairs : List ChannelPair := defaultPairs
  dmPairs : List DmPair := []
  loopRegex : List Char → Bool := defaultLoopRegex
  tagMesh : List Char := "[via Mesh]".toList
  tagCore : List Char := "[via Core]".toList
  meshtasticMtu : ℤ := 233
  meshcoreMtu : ℤ := 240
  bridgeDms : Bool := false
  filterPositionShares : Bool := true
  filterTapbacks : Bool := true

variable (config : Config)

/-- `self._tag_mesh` or `self._tag_core`. -/
def Config.tag : Origin → List Char
  | .mesh => config.tagMesh
  | .core => config.tagCore

/-- The bytes that a message of a mesh carries. -/
def Config.mtu : Origin → ℤ
  | .mesh => config.meshtasticMtu
  | .core => config.meshcoreMtu

inductive ConfigError
  | meshtastic (channel : ℤ)
  | meshcore (channel : ℤ)
  | direction (direction : String)
  | dmMeshtastic (id : List Char)
  | dmMeshcore (id : List Char)
  deriving DecidableEq

/-- `[0-9a-fA-F]`. -/
def isHexDigit (c : Char) : Bool := (PyStr.hexValue c).isSome

/-- `$`: the end of a text, or of its last line. -/
def atEnd (text : List Char) : Bool := text = [] ∨ text = ['\n']

/-- `^![0-9a-fA-F]{8}$`. -/
def isMeshtasticId : List Char → Bool
  | '!' :: id => (id.take 8).length = 8 ∧ (id.take 8).all isHexDigit ∧ atEnd (id.drop 8)
  | _ => false

/-- `^[0-9a-fA-F]{12,}$`. -/
def isMeshcoreId (id : List Char) : Bool :=
  12 ≤ (id.takeWhile isHexDigit).length ∧ atEnd (id.dropWhile isHexDigit)

def validatePair (pair : ChannelPair) : Except ConfigError Unit :=
  if ¬ (0 ≤ pair.meshtastic ∧ pair.meshtastic ≤ 7) then .error (.meshtastic pair.meshtastic)
  else if pair.meshcore < 0 then .error (.meshcore pair.meshcore)
  else if pair.direction ∉ ["both", "mesh_to_core", "core_to_mesh"] then
    .error (.direction pair.direction)
  else .ok ()

def validateDmPair (dm : DmPair) : Except ConfigError Unit :=
  if ¬ isMeshtasticId dm.meshtastic then .error (.dmMeshtastic dm.meshtastic)
  else if ¬ isMeshcoreId dm.meshcore then .error (.dmMeshcore dm.meshcore)
  else .ok ()

/-- `validate_config`, of a configuration whose patterns compile: the tags, the
    sizes and the loop pattern are free. -/
def Config.validateConfig : Except ConfigError Unit := do
  forM config.channelPairs validatePair
  forM config.dmPairs validateDmPair

/-! ## Messages -/

/-- The payload of `MESHTASTIC_MESSAGE_RECEIVED`. -/
structure MeshEvent where
  fromId : Option (List Char)
  fromName : Option (List Char)
  text : Option (List Char)
  channel : Option ℤ
  isBroadcast : Bool
  toId : Option (List Char)

/-- The payload of `MESHCORE_MESSAGE_RECEIVED`. -/
structure CoreEvent where
  fromKey : Option (List Char)
  fromName : Option (List Char)
  text : Option (List Char)
  channel : Option ℤ
  msgType : Option String

/-- What is received from one of the meshes, in the form that the bridge has for
    both. -/
structure Message where
  fromId : List Char
  fromName : Option (List Char)
  text : List Char
  channel : Option ℤ
  msgType : String
  toId : List Char

def normalizeMeshEvent (data : MeshEvent) : Message where
  fromId := data.fromId.getD []
  fromName := data.fromName
  text := data.text.getD []
  channel := data.channel
  msgType := if data.isBroadcast then "broadcast" else "direct"
  toId := data.toId.getD []

def normalizeCoreEvent (data : CoreEvent) : Message where
  fromId := data.fromKey.getD []
  fromName := data.fromName
  text := data.text.getD []
  channel := data.channel
  msgType := if data.msgType.getD "" = "" then "direct" else data.msgType.getD ""
  toId := []

/-- An event of one of the gateways. -/
inductive Inbound
  | mesh (data : MeshEvent)
  | core (data : CoreEvent)

def Inbound.origin : Inbound → Origin
  | .mesh _ => .mesh
  | .core _ => .core

def Inbound.message : Inbound → Message
  | .mesh data => normalizeMeshEvent data
  | .core data => normalizeCoreEvent data

/-- `_select_sender_label`: the name, else the beginning of the id. -/
def selectSenderLabel (fromName : Option (List Char)) (fromId : List Char) : List Char :=
  if fromName.getD [] ≠ [] then fromName.getD []
  else if fromId ≠ [] then fromId.take 12
  else ['?']

/-! ## The relay -/

/-- The counter that a dropped message adds to. -/
inductive Drop
  | startupGrace
  | paused
  | empty
  | loop
  | dedup
  | positionShare
  | tapback
  | noPair
  | filter
  deriving DecidableEq, Repr

/-- What the relay of a message ends in: it is dropped, or handed to the
    transport of a mesh. -/
inductive Outcome
  | dropped (drop : Drop)
  | dispatch (transport : Origin) (text dest : List Char) (channel : Option ℤ) (msgType : String)
  deriving DecidableEq, Repr

/-- What the relay finds of the state of the bridge: it has started no longer
    than `startup_grace_seconds` ago, it is running, and the message is in the
    dedup cache. -/
structure Gates where
  grace : Bool
  running : Bool
  duplicate : Bool

/-- `_looks_like_tapback`, with `str.isalnum`. -/
def looksLikeTapback (isAlnum : Char → Bool) (text : List Char) : Bool :=
  let stripped := PyStr.strip text
  stripped ≠ [] ∧ stripped.length ≤ 6 ∧ ¬ stripped.any isAlnum

variable (origin : Origin)

/-- `_resolve_broadcast_target`: the last of the pairs for the channel. -/
def Config.resolveBroadcastTarget (channel : Option ℤ) :
    Option ChannelPair :=
  channel.bind fun channel => config.channelPairs.reverse.find? fun pair =>
    match origin with
    | .mesh => pair.enabled && (pair.direction = "both" ∨ pair.direction = "mesh_to_core") &&
        pair.meshtastic = channel
    | .core => pair.enabled && (pair.direction = "both" ∨ pair.direction = "core_to_mesh") &&
        pair.meshcore = channel

/-- `_resolve_dm_target`: the last of the pairs for the recipient. -/
def Config.resolveDmTarget (toId : List Char) :
    Option (List Char) :=
  if toId = [] then none
  else match origin with
    | .mesh => (config.dmPairs.reverse.find? fun dm => dm.meshtastic = toId).map (·.meshcore)
    | .core => (config.dmPairs.reverse.find? fun dm =>
        dm.meshcore.map Char.toLower = toId.map Char.toLower).map (·.meshtastic)

/-- The prefix of a relayed text. -/
def Config.header (msg : Message) : List Char :=
  config.tag origin ++ ' ' :: (selectSenderLabel msg.fromName msg.fromId ++ ": ".toList)

/-- The text that is sent for a message. -/
def Config.attributed (msg : Message) : List Char :=
  truncateForMtu (config.header origin msg) msg.text (config.mtu origin.opposite)

/-- The part of `_relay` for a message that no filter on its content drops. -/
def Config.send (msg : Message) : Outcome :=
  if msg.msgType = "broadcast" then
    match config.resolveBroadcastTarget origin msg.channel with
    | none => .dropped .noPair
    | some pair =>
      if pair.denyRegex.any (· msg.text) then .dropped .filter
      else if pair.allowRegex.any (fun allow => ! allow msg.text) then .dropped .filter
      else
        let channel := match origin with
          | .mesh => pair.meshcore
          | .core => pair.meshtastic
        .dispatch origin.opposite (config.attributed origin msg) "broadcast".toList channel
          msg.msgType
  else if msg.msgType = "direct" then
    if ! config.bridgeDms then .dropped .noPair
    else match config.resolveDmTarget origin msg.toId with
      | none => .dropped .noPair
      | some dest =>
        .dispatch origin.opposite (config.attributed origin msg) dest msg.channel msg.msgType
  else .dropped .noPair

/-- The verdicts on a text that the bridge leaves to Python's `re` and `str`. -/
structure Verdicts where
  isPositionShare : List Char → Bool
  isAlnum : Char → Bool

/-- `_relay`, up to the transport. -/
def Config.relay (verdicts : Verdicts) (gates : Gates) (origin : Origin)
    (msg : Message) : Outcome :=
  if gates.grace then .dropped .startupGrace
  else if ! gates.running then .dropped .paused
  else if msg.text = [] then .dropped .empty
  else if config.loopRegex (PyStr.lstrip msg.text) then .dropped .loop
  else if gates.duplicate then .dropped .dedup
  else if config.filterPositionShares && verdicts.isPositionShare msg.text then
    .dropped .positionShare
  else if config.filterTapbacks && looksLikeTapback verdicts.isAlnum msg.text then
    .dropped .tapback
  else config.send origin msg

/-- `_on_mesh_message` and `_on_core_message`. -/
def Config.receive (verdicts : Verdicts) (gates : Gates) (inbound : Inbound) :
    Outcome :=
  config.relay verdicts gates inbound.origin inbound.message

/-- What is handed to a transport is the text of the message under its header, to
    the other mesh. -/
theorem Config.send_eq_dispatch {config : Config} {origin transport : Origin} {msg : Message}
    {text dest : List Char} {channel : Option ℤ} {msgType : String}
    (h : config.send origin msg = .dispatch transport text dest channel msgType) :
    transport = origin.opposite ∧ text = config.attributed origin msg := by
  rw [send] at h
  split_ifs at h
  · rcases hpair : config.resolveBroadcastTarget origin msg.channel with _ | pair
    · rw [hpair] at h
      cases h
    · rw [hpair] at h
      dsimp only at h
      split_ifs at h
      cases h
      exact ⟨rfl, rfl⟩
  · rcases hdest : config.resolveDmTarget origin msg.toId with _ | target
    · rw [hdest] at h
      cases h
    · rw [hdest] at h
      cases h
      exact ⟨rfl, rfl⟩

theorem Config.relay_eq_dispatch {config : Config} {verdicts : Verdicts} {gates : Gates}
    {origin transport : Origin} {msg : Message} {text dest : List Char} {channel : Option ℤ}
    {msgType : String}
    (h : config.relay verdicts gates origin msg = .dispatch transport text dest channel msgType) :
    transport = origin.opposite ∧ text = config.attributed origin msg := by
  rw [relay] at h
  split_ifs at h
  exact send_eq_dispatch h

theorem Config.send_ne_loop (msg : Message) : config.send origin msg ≠ .dropped .loop := by
  rw [send]
  split_ifs
  · rcases config.resolveBroadcastTarget origin msg.channel with _ | pair
    · rintro ⟨⟩
    · dsimp only
      split_ifs <;> rintro ⟨⟩
  · rintro ⟨⟩
  · rcases config.resolveDmTarget origin msg.toId with _ | dest <;> rintro ⟨⟩
  · rintro ⟨⟩

/-- The messages that a bridge drops as its own, past its grace and running. -/
theorem Config.relay_eq_loop_iff {config : Config} {verdicts : Verdicts} {gates : Gates}
    {origin : Origin} {msg : Message} (hgrace : gates.grace = false)
    (hrunning : gates.running = true) :
    config.relay verdicts gates origin msg = .dropped .loop ↔
      msg.text ≠ [] ∧ config.loopRegex (PyStr.lstrip msg.text) = true := by
  rw [relay, hgrace, hrunning, if_neg Bool.false_ne_true, if_neg (by decide)]
  by_cases htext : msg.text = []
  · rw [if_pos htext]
    simp [htext]
  · rw [if_neg htext]
    by_cases hloop : config.loopRegex (PyStr.lstrip msg.text) = true
    · rw [if_pos hloop]
      simp [htext, hloop]
    · rw [if_neg hloop]
      refine ⟨fun h => ?_, fun h => absurd h.2 hloop⟩
      split_ifs at h
      · cases h
      · cases h
      · cases h
      · exact absurd h (config.send_ne_loop origin msg)

end ReticulumPi.Bridge
