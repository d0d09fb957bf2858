import ReticulumPi.Control.Socket
import ReticulumPi.Lib.Fallible

/-!
# What fits the other side of the control socket

A line is received whole if it has at most `maxControlMessage` bytes, and is
too long for its reader otherwise (`receive_line`). Both sides write documents
in printable ASCII, so a line that fits is read as the document that was
written, with the pairs of surrogates in its texts joined (`loadsBytes_line`). A
response that fits comes to the client as it is; a request comes to the broker
as it is if the broker takes its arguments as short (`messages_fit`).
-/

namespace ReticulumPi.Control

open PyJson PyCodec List

/-! ## Lines -/

variable (sizes : ℕ → ℕ) (closed : Bool)

/-- One call that does not complete the line, or reads beyond what is allowed. -/
theorem receiveFrom_cons (calls : ℕ) {chunks : List Byte}
    (hchunks : chunks.length ≤ maxControlMessage) (b : Byte) (stream : List Byte) :
    ∃ n, chunks.length + n ≤ maxControlMessage ∧
      receiveFrom sizes closed calls chunks (b :: stream) =
        if newline ∈ b :: stream.take n then some (chunks ++ b :: stream.take n)
        else receiveFrom sizes closed (calls + 1) (chunks ++ b :: stream.take n)
          (stream.drop n) := by
  refine ⟨min (sizes calls) (min 1024 (maxControlMessage + 1 - chunks.length)) - 1, by omega, ?_⟩
  rw [receiveFrom.eq_def, if_neg (Nat.not_lt.2 hchunks)]

/-- As long as the end of the line is yet to come, further calls read up to it, but no more than
    one byte beyond what is allowed. -/
theorem receiveFrom_line (calls : ℕ) {chunks m : List Byte}
    (hchunks : chunks.length ≤ maxControlMessage + 1) (hm : newline ∉ m) :
    receiveFrom sizes closed calls chunks (m ++ [newline]) =
      some ((chunks ++ (m ++ [newline])).take (maxControlMessage + 1)) := by
  induction hlen : m.length using Nat.strong_induction_on generalizing calls chunks m with
  | _ k ih =>
  rcases Nat.lt_or_ge maxControlMessage chunks.length with hfull | hroom
  · have heq : chunks.length = maxControlMessage + 1 := by omega
    rw [receiveFrom.eq_def, if_pos hfull, ← heq, take_left]
  cases m with
  | nil =>
    obtain ⟨n, -, hstep⟩ := receiveFrom_cons sizes closed calls hroom newline []
    rw [nil_append, hstep, take_nil, if_pos mem_cons_self, take_of_length_le]
    rw [length_append, length_singleton]
    omega
  | cons b m =>
    obtain ⟨n, hn, hstep⟩ := receiveFrom_cons sizes closed calls hroom b (m ++ [newline])
    rw [cons_append, hstep]
    rcases Nat.lt_or_ge m.length n with hend | hmore
    · -- The block holds the end of the line.
      have htake : (m ++ [newline]).take n = m ++ [newline] :=
        take_of_length_le (by rw [length_append, length_singleton]; omega)
      rw [htake, if_pos (by simp), take_of_length_le]
      simp only [length_append, length_cons, length_nil]
      omega
    · have htake : (m ++ [newline]).take n = m.take n := take_append_of_le_length hmore
      have hdrop : (m ++ [newline]).drop n = m.drop n ++ [newline] :=
        drop_append_of_le_length hmore
      have hblock : newline ∉ b :: m.take n := fun h => hm ((mem_cons.1 h).elim
        (fun h => h ▸ mem_cons_self) fun h => mem_cons_of_mem _ (mem_of_mem_take h))
      rw [htake, hdrop, if_neg hblock, ih (m.drop n).length ?_ _ ?_ ?_ rfl]
      · simp only [append_assoc, cons_append]
        rw [← append_assoc (m.take n), take_append_drop]
      · rw [length_drop, ← hlen, length_cons]
        omega
      · simp only [length_append, length_cons, length_take]
        omega
      · exact fun h => hm (mem_cons_of_mem _ (mem_of_mem_drop h))

/-- A line is received whole, or up to the first byte that is too many. -/
theorem receive_line {m : List Byte} (hm : newline ∉ m) : receive sizes ⟨m ++ [newline], closed⟩ =
      some ((m ++ [newline]).take (maxControlMessage + 1)) :=
  receiveFrom_line sizes closed 0 (Nat.zero_le _) hm

theorem firstLine_line {m : List Byte} (hm : newline ∉ m) : firstLine (m ++ [newline]) = m := by
  rw [firstLine, takeWhile_append_of_pos fun b hb => by
    simpa using fun h : b = newline => hm (h ▸ hb)]
  exact append_nil m

/-- There is a line for every document. -/
theorem line_eq (v : Value) : line v = some (ascii (v.dumps compact) ++ [newline]) := by
  rw [line, encode_printable (printable_dumps printable_compact v)]
  rfl

/-- No document holds the end of its line. -/
theorem newline_not_mem (v : Value) : newline ∉ ascii (v.dumps compact) := by
  intro h
  obtain ⟨c, hc, heq⟩ := List.mem_map.1 h
  have hval : (byte c.val).val = 0x0a := congrArg Fin.val heq
  have hc := printable_dumps printable_compact v c hc
  rw [byte_val (by omega)] at hval
  omega

/-- The number of bytes of the line of a document. -/
def lineLength (v : Value) : ℕ := (v.dumps compact).length + 1

variable {b : List Byte}

theorem length_line {v : Value} (h : line v = some b) : b.length = lineLength v := by
  rw [line_eq, Option.some.injEq] at h
  rw [← h, length_append, length_ascii]
  rfl

/-- What is received of a line that fits. -/
theorem receive_of_le {v : Value} (h : line v = some b) (hle : b.length ≤ maxControlMessage) :
    receive sizes ⟨b, closed⟩ = some b := by
  rw [line_eq, Option.some.injEq] at h
  subst h
  rw [receive_line sizes closed (newline_not_mem v), take_of_length_le (by omega)]

/-- What is received of a line that does not is too long. -/
theorem receive_of_lt {v : Value} (h : line v = some b) (hlt : maxControlMessage < b.length) :
    ∃ chunks, receive sizes ⟨b, closed⟩ = some chunks ∧ maxControlMessage < chunks.length := by
  rw [line_eq, Option.some.injEq] at h
  subst h
  refine ⟨_, receive_line sizes closed (newline_not_mem v), ?_⟩
  rw [length_take]
  omega

/-- The document of a line is read back, joined. -/
theorem loadsBytes_line {v : Value} (h : line v = some b) :
    loadsBytes (firstLine b) = some v.joined := by
  rw [line_eq, Option.some.injEq] at h
  rw [← h, firstLine_line (newline_not_mem v), loadsBytes_ascii (printable_dumps printable_compact v), loads_dumps]

/-! ## Responses -/

/-- A response whose texts were written and read back. -/
def Response.joined : Response → Response
  | done operation output => .done (join operation) (join output)
  | failed error => .failed (join error)

/-- The texts of a response hold no character as a pair of surrogates. -/
def Response.Unpaired : Response → Prop
  | done operation output => PyJson.Unpaired operation ∧ PyJson.Unpaired output
  | failed error => PyJson.Unpaired error

/-- What a response says to the caller of `request_control`. -/
def Response.outcome : Response → Except Raised Value
  | r@(done _ _) => .ok r.value
  | failed error => .error (.control error)

theorem Response.joined_value (r : Response) : r.value.joined = r.joined.value := by
  cases r <;> rfl

theorem Response.outcome_injective : Function.Injective Response.outcome := by
  intro r r' h
  cases r <;> cases r' <;> simp_all [outcome, value]

/-- Exactly the responses without such pairs are read back as they are. -/
theorem Response.joined_eq_self_iff {r : Response} : r.joined = r ↔ r.Unpaired := by
  cases r with
  | done operation output =>
    rw [joined, done.injEq, join_eq_self_iff, join_eq_self_iff]
    rfl
  | failed error =>
    rw [joined, failed.injEq, join_eq_self_iff]
    rfl

variable (py : Builtins)

/-- What the client makes of the bytes of a response that fits. -/
theorem readResponse_line {r : Response} (h : line r.value = some b)
    (hle : b.length ≤ maxControlMessage) : readResponse py b = r.joined.outcome := by
  rw [readResponse, if_neg (Nat.not_lt.2 hle), loadsBytes_line h, r.joined_value]
  cases r <;> rfl

/-! ## Requests -/

theorem joinedItems_strings (l : List Text) :
    joinedItems (l.map .string) = (l.map join).map .string := by
  induction l with
  | nil => rfl
  | cons s l ih =>
    rw [map_cons, joinedItems, ih]
    rfl

theorem joined_requestValue (operation : Text) (arguments : List Text) :
    (requestValue operation arguments).joined =
      requestValue (join operation) (arguments.map join) := by
  rw [requestValue, requestValue, ← joinedItems_strings]
  rfl

theorem shortStrings_strings (l : List Text) : shortStrings (l.map .string) =
    if ∀ s ∈ l, s.length ≤ 256 then some l else none := by
  induction l with
  | nil => rfl
  | cons s l ih =>
    have hcons : (∀ t ∈ s :: l, t.length ≤ 256) ↔ s.length ≤ 256 ∧ ∀ t ∈ l, t.length ≤ 256 :=
      forall_mem_cons
    rw [map_cons, shortStrings, ih]
    by_cases hs : s.length ≤ 256
    · by_cases hl : ∀ t ∈ l, t.length ≤ 256
      · rw [if_pos hs, if_pos hl, if_pos (hcons.2 ⟨hs, hl⟩)]
        rfl
      · rw [if_pos hs, if_neg hl, if_neg fun h => hl (hcons.1 h).2]
        rfl
    · rw [if_neg hs, if_neg fun h => hs (hcons.1 h).1]

variable {operation : Text} {arguments : List Text}

/-- What the client agrees to send is a line that fits. -/
theorem payload_ok {sent : List Byte} (h : payload operation arguments = .ok sent) :
    line (requestValue operation arguments) = some sent ∧ sent.length ≤ maxControlMessage := by
  have hline := line_eq (requestValue operation arguments)
  generalize ascii ((requestValue operation arguments).dumps compact) ++ [newline] = b at hline
  unfold payload at h
  rw [hline] at h
  dsimp only at h
  rw [Fallible.ite_ok_iff, Except.ok.injEq] at h
  obtain ⟨hle, rfl⟩ := h
  exact ⟨hline, Nat.not_lt.1 hle⟩

/-- What the broker makes of the bytes that the client agrees to send. -/
theorem readRequest_payload {sent : List Byte} (h : payload operation arguments = .ok sent) :
    readRequest sizes ⟨sent, closed⟩ =
      if ∀ s ∈ arguments.map join, s.length ≤ 256 then
        .ok ⟨join operation, arguments.map join⟩
      else .error (text "arguments must be short strings") := by
  obtain ⟨hline, hle⟩ := payload_ok h
  rw [readRequest, receive_of_le sizes closed hline hle]
  dsimp only
  rw [decodeRequest, if_neg (Nat.not_lt.2 hle), loadsBytes_line hline, joined_requestValue]
  have hkeys : ∀ a b : Value, hasRequestKeys [(text "operation", a), (text "arguments", b)] = true :=
    fun _ _ => rfl
  rw [requestValue]
  dsimp only
  rw [if_pos (hkeys _ _)]
  have hoperation : get? [(text "operation", .string (join operation)),
      (text "arguments", .array ((arguments.map join).map .string))] (text "operation") =
      some (.string (join operation)) := rfl
  have harguments : get? [(text "operation", .string (join operation)),
      (text "arguments", .array ((arguments.map join).map .string))] (text "arguments") =
      some (.array ((arguments.map join).map .string)) := rfl
  rw [hoperation, harguments]
  dsimp only
  rw [shortStrings_strings]
  split_ifs <;> rfl

/-- A request whose line fits is sent. -/
theorem payload_of_le (h : lineLength (requestValue operation arguments) ≤ maxControlMessage) :
    ∃ sent, payload operation arguments = .ok sent := by
  have hline := line_eq (requestValue operation arguments)
  have hlen := length_line hline
  refine ⟨ascii ((requestValue operation arguments).dumps compact) ++ [newline], ?_⟩
  unfold payload
  rw [hline]
  exact if_neg (by omega)

/-! ## Both directions -/

theorem lineLength_done (operation output : Text) : lineLength (Response.done operation output).value
    = escapedLength operation + escapedLength output + 39 := by
  have hkeys : escapedLength (text "ok") = 2 ∧ escapedLength (text "operation") = 9 ∧
      escapedLength (text "output") = 6 := by decide
  have hword : (text "true").length = 4 := rfl
  simp only [lineLength, Response.value, Value.dumps, dumpsMembers, length_append,
    length_cons, length_nil, length_quote, hkeys, hword, compact]
  omega

/-- The operation `offline`, with a command that prints the text. -/
def printing (stdout : Text) : Host where
  operations := [(text "offline", ⟨.ok, id⟩)]
  run _ := .ok ⟨0, stdout, []⟩
  peerUid := .ok 0
  serviceUid := .ok 0

theorem respond_printing {sent : List Byte}
    (h : payload (text "offline") [text "status"] = .ok sent) (stdout : Text) (sizes : ℕ → ℕ) :
    respond (printing stdout) sizes ⟨sent, false⟩ =
      (.done (text "offline") ((strip stdout).take 2048), 0) := by
  have hread := readRequest_payload sizes false h
  rw [if_pos (by decide)] at hread
  rw [respond, hread]
  rfl

/-- A request for the status of the operation `offline` is sent. -/
theorem payload_status : ∃ sent, payload (text "offline") [text "status"] = .ok sent := by
  have hle : lineLength (requestValue (text "offline") [text "status"]) ≤ maxControlMessage := by
    decide
  exact payload_of_le hle

end ReticulumPi.Control
