import ReticulumPi.Bridge.Wire

/-!
# Sending a text over MQTT

`_MeshtasticMQTTClient.sendText` puts a text into a packet, cut to the bytes that
a Meshtastic packet carries. It cuts the bytes themselves, and not the text as
`truncate_bytes` does, so that a character on which the cut falls leaves bytes
that are no text (`sendText_like_radio_iff`).

The packet is built here for an identifier that the allocator gave, with the
encryption, which another library does, as a parameter. That it is published
afterwards, and what the broker answers, is left out.
-/

namespace ReticulumPi.Meshtastic

open PyJson PyCodec

def meshtasticMtu : ℕ := 233

def meshtasticHopLimit : ℕ := 7

def meshBroadcast : ℕ := 0xFFFFFFFF

/-- The ports that payloads are for. -/
inductive PortNum
  | textMessageApp
deriving DecidableEq

structure Data where
  portnum : PortNum
  payload : List Byte
deriving DecidableEq

/-- What a packet carries. -/
inductive Variant
  | decoded (data : Data)
  | encrypted (bytes : List Byte)
deriving DecidableEq

structure MeshPacket where
  «from» : ℕ
  «to» : ℕ
  id : ℕ
  channel : ℕ
  hopLimit : ℕ
  wantAck : Bool
  variant : Variant
deriving DecidableEq

/-- The client: its node number, and `_encrypt_data` if it has a key. -/
structure MqttClient where
  myNodeNum : ℕ
  encryptData : Option (Data → ℕ → ℕ → List Byte)

def MqttClient.variant (client : MqttClient) (data : Data) (packetId : ℕ) : Variant :=
  match client.encryptData with
  | some encrypt => .encrypted (encrypt data client.myNodeNum packetId)
  | none => .decoded data

/-- `sendText`, of a packet with the identifier `packetId`: without an encoding
    of the text it raises. -/
def MqttClient.sendText (client : MqttClient) (text : Text) (channelIndex : ℕ)
    (destinationId : Option ℕ) (hopLimit : Option ℕ) (packetId : ℕ) : Option MeshPacket := do
  let data : Data := {
    portnum := .textMessageApp
    payload := (← encode text).take meshtasticMtu }
  return {
    «from» := client.myNodeNum
    «to» := destinationId.getD meshBroadcast
    id := packetId
    channel := channelIndex
    hopLimit := hopLimit.getD meshtasticHopLimit
    wantAck := destinationId.isSome
    variant := client.variant data packetId }

/-- The texts that are cut by bytes as they are by characters: those that fit,
    and those in which the last byte that does ends a character. -/
theorem bytes_like_text_iff {t : Text} {b : List Byte} (h : encode t = some b) (n : ℕ) :
    (IsUtf8 (b.take n) ∧ (b.take n).length ≤ n ∧
        (Bridge.Wire.truncateBytes t n).bind encode = some (b.take n)) ↔ OnBoundary t n := by
  rw [← isUtf8_take_iff h]
  refine ⟨fun hgood => hgood.1, fun hutf8 => ⟨hutf8, List.length_take_le n b, ?_⟩⟩
  obtain ⟨p, hp, hlongest⟩ := Bridge.Wire.longestPrefix_truncateBytes h n
  rw [hp, hlongest.unique (longestPrefix_decodeIgnore h n)]
  exact isUtf8_iff.1 hutf8

/-- The payload of `sendText` is the text as the radio path cuts it exactly when
    no character of the text lies across the limit. -/
theorem sendText_like_radio_iff (client : MqttClient) (text : Text) (channelIndex : ℕ)
    (destinationId hopLimit : Option ℕ) (packetId : ℕ) (packet : MeshPacket)
    (h : client.sendText text channelIndex destinationId hopLimit packetId = some packet) :
    ∃ data : Data, packet.variant = client.variant data packetId ∧
      data.portnum = .textMessageApp ∧
      ((IsUtf8 data.payload ∧ data.payload.length ≤ meshtasticMtu ∧
          (Bridge.Wire.truncateBytes text meshtasticMtu).bind encode = some data.payload) ↔
        OnBoundary text meshtasticMtu) := by
  rw [MqttClient.sendText, Option.bind_eq_bind, Option.bind_eq_some_iff] at h
  obtain ⟨b, hb, hpacket⟩ := h
  cases hpacket
  exact ⟨⟨.textMessageApp, b.take meshtasticMtu⟩, rfl, rfl, bytes_like_text_iff hb meshtasticMtu⟩

/-! ## A character across the limit -/

/-- A client without a key. -/
def openClient : MqttClient := ⟨0x12345678, none⟩

/-- 232 letters, and one that takes two bytes. -/
def acrossLimit : Text := List.replicate 232 (codePoint 0x61) ++ [codePoint 0xe9]

theorem sendText_like_radio_open : ∃ data : Data,
    Variant.decoded ⟨.textMessageApp, [0xc3, 0xa9]⟩ = openClient.variant data 1 ∧
      data.portnum = .textMessageApp ∧
      ((IsUtf8 data.payload ∧ data.payload.length ≤ meshtasticMtu ∧
          (Bridge.Wire.truncateBytes [0xe9] meshtasticMtu).bind encode = some data.payload) ↔
        OnBoundary [0xe9] meshtasticMtu) :=
  sendText_like_radio_iff openClient [0xe9] 0 none none 1
    ⟨0x12345678, meshBroadcast, 1, 0, 7, false, .decoded ⟨.textMessageApp, [0xc3, 0xa9]⟩⟩ (by decide)

/-- The letter is cut in two: the payload is no text, and the radio path would
    have sent the 232 letters. -/
theorem sendText_splits_character : ∃ (packet : MeshPacket) (data : Data),
    openClient.sendText acrossLimit 0 none none 1 = some packet ∧
      packet.variant = openClient.variant data 1 ∧ ¬IsUtf8 data.payload ∧
      (Bridge.Wire.truncateBytes acrossLimit meshtasticMtu).bind encode ≠ some data.payload := by
  let data : Data := ⟨.textMessageApp, List.replicate 232 0x61 ++ [0xc3]⟩
  refine ⟨⟨0x12345678, meshBroadcast, 1, 0, 7, false, .decoded data⟩, data, ?_, rfl, ?_, ?_⟩
  all_goals decide +kernel

end ReticulumPi.Meshtastic
