import ReticulumPi.Bridge.Relay

/-!
# Loops

A text that the bridge has sent to a mesh comes back from one of the two, with
white space before it and cut to the bytes that the mesh carries. Whether the
bridge knows it again is decided by what is left of the header it was sent
under: the whole of it, or as much as fits in the bytes of both meshes
(`back_cases`). The configuration is free to have tags that its loop pattern
does not match.
-/

namespace ReticulumPi.Bridge

open List

/-! ## White space -/

theorem lstrip_append_of_isSpace {blank : List Char} (hblank : ∀ c ∈ blank, PyStr.isSpace c = true)
    (text : List Char) : PyStr.lstrip (blank ++ text) = PyStr.lstrip text := by
  rw [PyStr.lstrip, PyStr.lstrip, dropWhile_append, dropWhile_eq_nil_iff.2 hblank]
  rfl

/-! ## The default pattern -/

/-- A pattern that tells a text under a header from the header alone. -/
def ReadsHeader (regex : List Char → Bool) (header : List Char) : Prop :=
  ∀ rest, regex (PyStr.lstrip (header ++ rest)) = regex (PyStr.lstrip header)

variable (config : Config) (origin : Origin) (msg : Message)

theorem colon_mem_header : ':' ∈ config.header origin msg := by
  rw [Config.header]
  simp

/-! ## The text that comes back -/

/-- What is left of a text on its way from a mesh. -/
def Config.back (text blank : List Char) (transport : Origin) : List Char :=
  blank ++ truncateBytes text (config.mtu transport).toNat

/-- The part of the header that the bytes of both meshes have room for. -/
def Config.kept (transport : Origin) : List Char :=
  truncateBytes (config.header origin msg)
    (min (config.mtu origin.opposite).toNat (config.mtu transport).toNat)

variable (text : List Char)

/-- The bridge drops the text as its own, whatever transport it comes back from,
    under whatever sender, and whatever is before it. -/
def Config.Recognizes : Prop :=
  ∀ (verdicts : Verdicts) (gates : Gates) (inbound : Inbound) (blank : List Char),
    gates.grace = false → gates.running = true → (∀ c ∈ blank, PyStr.isSpace c = true) →
      inbound.message.text = config.back text blank inbound.origin →
        config.receive verdicts gates inbound = .dropped .loop

/-- The loop pattern matches what is left of the header, from either mesh. -/
def Config.KeepsTag : Prop :=
  ∀ transport, config.kept origin msg transport ≠ [] ∧
    config.loopRegex (PyStr.lstrip (config.kept origin msg transport)) = true

/-- The same, whatever comes after. -/
def Config.KeepsTagBefore : Prop :=
  ∀ transport rest, config.kept origin msg transport ≠ [] ∧
    config.loopRegex (PyStr.lstrip (config.kept origin msg transport ++ rest)) = true

/-- A text comes back with its header in full, or it is what is left of it. -/
theorem back_cases (transport : Origin) :
    (config.kept origin msg transport = config.header origin msg ∧ ∃ rest,
      truncateBytes (config.attributed origin msg) (config.mtu transport).toNat =
        config.kept origin msg transport ++ rest) ∨
      truncateBytes (config.attributed origin msg) (config.mtu transport).toNat =
        config.kept origin msg transport := by
  rcases truncateBytes_truncateForMtu_cases (config.header origin msg) msg.text
      (config.mtu origin.opposite) (config.mtu transport).toNat with ⟨hkept, rest, htext⟩ | htext
  · refine .inl ⟨hkept, rest, ?_⟩
    rw [Config.kept, hkept]
    exact htext
  · exact .inr htext

theorem header_ne_nil : config.header origin msg ≠ [] :=
  ne_nil_of_mem (colon_mem_header config origin msg)

/-- An event of a transport with a text. -/
def inboundOf : Origin → Inbound
  | .mesh => .mesh ⟨none, none, text, none, true, none⟩
  | .core => .core ⟨none, none, text, none, none⟩

@[simp] theorem origin_inboundOf (transport : Origin) :
    (inboundOf text transport).origin = transport := by
  rcases transport <;> rfl

@[simp] theorem text_inboundOf (transport : Origin) :
    (inboundOf text transport).message.text = text := by
  rcases transport <;> rfl

/-- What the bridge has to tell of the texts that come back. -/
theorem recognizes_iff : config.Recognizes text ↔ ∀ transport,
      truncateBytes text (config.mtu transport).toNat ≠ [] ∧
        config.loopRegex
          (PyStr.lstrip (truncateBytes text (config.mtu transport).toNat)) = true := by
  constructor
  · intro h transport
    have hback := h ⟨fun _ => false, fun _ => false⟩ ⟨false, true, false⟩
      (inboundOf (config.back text [] transport) transport) [] rfl rfl (by simp) (by simp)
    rw [Config.receive, Config.relay_eq_loop_iff rfl rfl, text_inboundOf] at hback
    exact hback
  · intro h verdicts gates inbound blank hgrace hrunning hblank htext
    obtain ⟨hne, hloop⟩ := h inbound.origin
    rw [Config.receive, Config.relay_eq_loop_iff hgrace hrunning, htext, Config.back,
      lstrip_append_of_isSpace hblank]
    exact ⟨append_ne_nil_of_right_ne_nil _ hne, hloop⟩

/-- Texts are known again where the pattern matches all that can follow what is
    left of the header. For a pattern that does not look past the header, they
    are where it matches what is left of the header, and only there. -/
theorem relay_recognized_iff {verdicts : Verdicts} {gates : Gates} {inbound : Inbound}
    {transport : Origin} {text dest : List Char} {channel : Option ℤ} {msgType : String}
    (h : config.receive verdicts gates inbound = .dispatch transport text dest channel msgType) :
    (config.KeepsTagBefore inbound.origin inbound.message → config.Recognizes text) ∧
      (ReadsHeader config.loopRegex (config.header inbound.origin inbound.message) →
        (config.Recognizes text ↔ config.KeepsTag inbound.origin inbound.message)) := by
  obtain ⟨-, rfl⟩ := Config.relay_eq_dispatch h
  rw [recognizes_iff]
  constructor
  · intro hkeeps transport
    rcases back_cases config inbound.origin inbound.message transport with
      ⟨-, rest, htext⟩ | htext
    · rw [htext]
      obtain ⟨hne, hloop⟩ := hkeeps transport rest
      exact ⟨append_ne_nil_of_left_ne_nil hne _, hloop⟩
    · rw [htext]
      have hloop := (hkeeps transport []).2
      rw [append_nil] at hloop
      exact ⟨(hkeeps transport []).1, hloop⟩
  · intro hreads
    refine forall_congr' fun transport => ?_
    rcases back_cases config inbound.origin inbound.message transport with
      ⟨hkept, rest, htext⟩ | htext
    · rw [htext, hkept, hreads rest]
      have hne := header_ne_nil config inbound.origin inbound.message
      exact and_congr_left' (iff_of_true (append_ne_nil_of_left_ne_nil hne _) hne)
    · rw [htext]

/-! ## The defaults -/

/-- The header of the default tags begins with what the default pattern is. -/
theorem header_eq_of_default {config : Config} (hmesh : config.tagMesh = "[via Mesh]".toList)
    (hcore : config.tagCore = "[via Core]".toList) (origin : Origin) (msg : Message) :
    ∃ tag ∈ ["[via Mesh] ".toList, "[via Core] ".toList], ∃ label,
      config.header origin msg = tag ++ label := by
  rcases origin with _ | _
  · refine ⟨_, List.mem_cons_self, selectSenderLabel msg.fromName msg.fromId ++ ": ".toList, ?_⟩
    rw [Config.header, Config.tag, hmesh]
    rfl
  · refine ⟨_, mem_cons_of_mem _ mem_cons_self,
      selectSenderLabel msg.fromName msg.fromId ++ ": ".toList, ?_⟩
    rw [Config.header, Config.tag, hcore]
    rfl

theorem defaultLoopRegex_append {tag : List Char}
    (htag : tag ∈ ["[via Mesh] ".toList, "[via Core] ".toList]) (rest : List Char) :
    byteLength tag = 11 ∧ tag ≠ [] ∧ defaultLoopRegex (PyStr.lstrip (tag ++ rest)) = true := by
  rcases mem_pair.1 htag with rfl | rfl
  all_goals exact ⟨rfl, by decide, rfl⟩

/-- With the tags and the pattern of the defaults, a bridge knows all that it sends,
    if the meshes have room for the tag. -/
theorem keepsTagBefore_of_default {config : Config} (hloop : config.loopRegex = defaultLoopRegex)
    (hmesh : config.tagMesh = "[via Mesh]".toList)
    (hcore : config.tagCore = "[via Core]".toList)
    (hmtu : ∀ transport, 11 ≤ config.mtu transport) (origin : Origin) (msg : Message) :
    config.KeepsTagBefore origin msg := by
  intro transport rest
  obtain ⟨tag, htag, label, hheader⟩ := header_eq_of_default hmesh hcore origin msg
  obtain ⟨hbytes, hne, -⟩ := defaultLoopRegex_append htag []
  have hroom : byteLength tag ≤
      min (config.mtu origin.opposite).toNat (config.mtu transport).toNat := by
    have := hmtu origin.opposite
    have := hmtu transport
    omega
  rw [Config.kept, hheader, truncateBytes_append_of_le hroom, hloop, append_assoc]
  exact ⟨append_ne_nil_of_left_ne_nil hne _, (defaultLoopRegex_append htag _).2.2⟩

def fromBob : Inbound :=
  .mesh ⟨"!0a1b2c3d".toList, "Bob".toList, "hello".toList, some 0, true, none⟩

def noVerdicts : Verdicts := ⟨fun _ => false, Char.isAlphanum⟩

def openGates : Gates := ⟨false, true, false⟩

/-- A greeting under the tag of the defaults. -/
theorem relay_recognized_iff_default :
    ({} : Config).Recognizes "[via Mesh] Bob: hello".toList :=
  (relay_recognized_iff {}
    (show ({} : Config).receive noVerdicts openGates fromBob =
      .dispatch .core "[via Mesh] Bob: hello".toList "broadcast".toList (some 0) "broadcast" by
        decide +kernel)).1
    (keepsTagBefore_of_default rfl rfl rfl (by rintro (_ | _) <;> decide) .mesh fromBob.message)

/-- A configuration with a tag that the default pattern does not match. -/
def shortTag : Config := { tagMesh := "[MT]".toList }

/-- It is accepted, and what is sent under the tag and comes back on the mesh it was
    sent to is sent again, to where it is from. -/
theorem shortTag_relays_back :
    shortTag.validateConfig = .ok () ∧
      shortTag.receive noVerdicts openGates fromBob =
        .dispatch .core "[MT] Bob: hello".toList "broadcast".toList (some 0) "broadcast" ∧
      ¬ shortTag.Recognizes "[MT] Bob: hello".toList ∧
      shortTag.receive noVerdicts openGates (.core ⟨none, "Pi".toList,
        shortTag.back "[MT] Bob: hello".toList [] .core, some 0, some "broadcast"⟩) =
        .dispatch .mesh "[via Core] Pi: [MT] Bob: hello".toList "broadcast".toList (some 0)
          "broadcast" := by
  refine ⟨by decide +kernel, by decide +kernel, fun h => ?_, by decide +kernel⟩
  obtain ⟨-, hloop⟩ := (recognizes_iff _ _).1 h .core
  revert hloop
  decide +kernel

end ReticulumPi.Bridge
