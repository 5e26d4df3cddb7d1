import SdWan.ISPInterface
import SdWan.Library.MessageStream

/-!
# Messages with a header

With `EnableSeqTsSizeHeader` the receiver puts messages together again that the peers sent with a
`SeqTsSizeHeader`. `packetReceived` keeps a buffer for every peer, cuts complete messages out of it
and hands each of them to the trace source. Whatever way the streams of the peers are cut into
packets and interleaved, the messages are traced in order, each once. A message without a payload
that comes last is complete but stays in the buffer.
-/

open MessageStream

namespace SdWan

/-! ## The header -/

structure SeqTsSizeHeader where
  size : ℕ
  seq : ℕ
  ts : ℕ
  deriving DecidableEq, Repr

namespace SeqTsSizeHeader

def getSerializedSize : ℕ := 4 + 8 + 8

theorem getSerializedSize_pos : 0 < getSerializedSize := Nat.succ_pos _

def serialize (header : SeqTsSizeHeader) : List UInt8 :=
  writeHton 8 header.size ++ (writeHton 4 header.seq ++ writeHton 8 header.ts)

def readErrorMessage : String :=
  "You have attempted to read beyond the bounds of the " ++
    "available buffer space. This usually indicates that a " ++
    "Header::Deserialize or Trailer::Deserialize method " ++
    "is trying to read data which was not written by " ++
    "a Header::Serialize or Trailer::Serialize method. " ++
    "In short: check the code of your Serialize and Deserialize " ++
    "methods."

/-- The last one of the reads fails an assertion, if there are not enough bytes. -/
def deserialize (start : List UInt8) : Result SeqTsSizeHeader :=
  if start.length < getSerializedSize then .error (.fatalError readErrorMessage)
  else .ok {
    size := readNtoh (start.take 8)
    seq := readNtoh ((start.drop 8).take 4)
    ts := readNtoh ((start.drop (8 + 4)).take 8) }

/-- The fields of the header have their widths. -/
structure Fits (header : SeqTsSizeHeader) : Prop where
  size_lt : header.size < 2 ^ 64
  seq_lt : header.seq < 2 ^ 32
  ts_lt : header.ts < 2 ^ 64

@[simp] theorem length_serialize (header : SeqTsSizeHeader) :
    header.serialize.length = getSerializedSize := by
  simp [serialize, getSerializedSize]

theorem deserialize_serialize {header : SeqTsSizeHeader} (h : header.Fits) (rest : List UInt8) :
    deserialize (header.serialize ++ rest) = .ok header := by
  have hlength : ¬ (header.serialize ++ rest).length < getSerializedSize := by
    rw [List.length_append, length_serialize]
    omega
  have hsize : (header.serialize ++ rest).take 8 = writeHton 8 header.size := by
    simp [serialize]
  have hseq : ((header.serialize ++ rest).drop 8).take 4 = writeHton 4 header.seq := by
    simp [serialize]
  have hts : ((header.serialize ++ rest).drop (8 + 4)).take 8 = writeHton 8 header.ts := by
    simp [serialize, List.drop_append, List.drop_eq_nil_of_le]
  rw [deserialize, if_neg hlength, hsize, hseq, hts, readNtoh_writeHton h.size_lt,
    readNtoh_writeHton h.seq_lt, readNtoh_writeHton h.ts_lt]

theorem le_length_of_deserialize {start : List UInt8} {header : SeqTsSizeHeader}
    (h : deserialize start = .ok header) : getSerializedSize ≤ start.length := by
  by_contra hshort
  rw [deserialize, if_pos (by omega)] at h
  cases h

end SeqTsSizeHeader

/-- What a peer sends: the size of the header counts the payload and the header. -/
structure Message where
  header : SeqTsSizeHeader
  payload : List UInt8
  size_eq : header.size = SeqTsSizeHeader.getSerializedSize + payload.length
  size_lt : header.size < 2 ^ 32
  seq_lt : header.seq < 2 ^ 32
  ts_lt : header.ts < 2 ^ 64

namespace Message

def bytes (message : Message) : List UInt8 := message.header.serialize ++ message.payload

theorem fits (message : Message) : message.header.Fits :=
  ⟨message.size_lt.trans (by decide), message.seq_lt, message.ts_lt⟩

theorem length_bytes (message : Message) : message.bytes.length = message.header.size := by
  rw [bytes, List.length_append, SeqTsSizeHeader.length_serialize, message.size_eq]

end Message

/-! ## Putting the messages together -/

/-- What a callback of the trace source gets. -/
structure TracedMessage where
  complete : List UInt8
  sender : Address
  localAddress : Address
  header : SeqTsSizeHeader
  deriving DecidableEq, Repr

/-- The members of the receiver that `packetReceived` uses: the buffers, by peer, and what the
trace source has called back with. -/
structure Reassembler where
  buffer : Address → Option (List UInt8) := fun _ => none
  rxTraceWithSeqTsSize : List TracedMessage := []

namespace Reassembler

open SeqTsSizeHeader

/-- The loop. Its last condition leaves it with `header` as it is. -/
def cut (sender localAddress : Address) (buffer : List UInt8) (header : SeqTsSizeHeader)
    (traced : List TracedMessage) : Result (List UInt8 × List TracedMessage) :=
  if header.size ≤ buffer.length then
    let complete := buffer.take (uint32 header.size)
    match _hcomplete : deserialize complete with
    | .error f => .error f
    | .ok header' =>
      let buffer' := buffer.drop (uint32 header.size)
      let traced := traced ++
        [⟨complete.drop getSerializedSize, sender, localAddress, header'⟩]
      if getSerializedSize < buffer'.length then
        match deserialize buffer' with
        | .error f => .error f
        | .ok header => cut sender localAddress buffer' header traced
      else .ok (buffer', traced)
  else .ok (buffer, traced)
termination_by buffer.length
decreasing_by
  have hlong := le_length_of_deserialize _hcomplete
  have hpos := getSerializedSize_pos
  simp only [List.length_take, List.length_drop, complete] at hlong ⊢
  omega

def packetReceived (p : List UInt8) (sender localAddress : Address) (r : Reassembler) :
    Result Reassembler := do
  let buffer := (r.buffer sender).getD [] ++ p
  let header ← deserialize buffer
  if header.size = 0 then .error (.fatalError "aborted. cond=\"header.GetSize() == 0")
  else
    let (buffer, traced) ← cut sender localAddress buffer header r.rxTraceWithSeqTsSize
    .ok { buffer := Function.update r.buffer sender (some buffer), rxTraceWithSeqTsSize := traced }

/-! ## What one packet brings -/

/-- The headers and payloads that were traced for a peer. -/
def tracedFrom (peer : Address) (traced : List TracedMessage) :
    List (SeqTsSizeHeader × List UInt8) :=
  (traced.filter fun t => decide (t.sender = peer)).map fun t => (t.header, t.complete)

/-- Of what has arrived from a peer the first messages are traced, and the rest is in the buffer. -/
structure Follows (messages : List Message) (received : List UInt8) (peer : Address) (taken : ℕ)
    (buffer : List UInt8) (traced : List TracedMessage) : Prop where
  reassembles : Reassembles (messages.map Message.bytes) received taken buffer
  traced : tracedFrom peer traced =
    (messages.take taken).map fun message => (message.header, message.payload)

/-- The next message has not arrived, or it ends the buffer and has no payload. -/
def Waits (messages : List Message) (taken : ℕ) (buffer : List UInt8) : Prop :=
  ∀ message, messages[taken]? = some message →
    buffer.length < message.bytes.length ∨ buffer = message.bytes ∧ message.payload = []

section

variable {messages : List Message} {received buffer : List UInt8} {taken : ℕ}
  {sender localAddress : Address} {traced : List TracedMessage} {message : Message}

theorem getElem?_bytes (h : messages[taken]? = some message) :
    (messages.map Message.bytes)[taken]? = some message.bytes := by
  rw [List.getElem?_map, h]
  rfl

/-- A buffer that is long enough begins with the header of the next message. -/
theorem exists_header (h : Reassembles (messages.map Message.bytes) received taken buffer)
    (hlong : getSerializedSize ≤ buffer.length) :
    ∃ message, messages[taken]? = some message ∧ deserialize buffer = .ok message.header := by
  have hpos := getSerializedSize_pos
  obtain ⟨bytes, hbytes⟩ := h.exists_message (List.ne_nil_of_length_pos (by omega))
  rw [List.getElem?_map, Option.map_eq_some_iff] at hbytes
  obtain ⟨message, hmessage, -⟩ := hbytes
  have hheader : message.header.serialize <+: message.bytes := List.prefix_append _ _
  obtain ⟨rest, rfl⟩ := h.prefix_buffer (getElem?_bytes hmessage) hheader
    (by rwa [length_serialize])
  exact ⟨message, hmessage, deserialize_serialize message.fits rest⟩

/-- The callback for the next message. -/
theorem Follows.take (localAddress : Address)
    (h : Follows messages received sender taken buffer traced)
    (hmessage : messages[taken]? = some message) (hsize : message.header.size ≤ buffer.length) :
    deserialize (buffer.take (uint32 message.header.size)) = .ok message.header ∧
      Follows messages received sender (taken + 1) (buffer.drop (uint32 message.header.size))
        (traced ++ [⟨(buffer.take (uint32 message.header.size)).drop getSerializedSize, sender,
          localAddress, message.header⟩]) := by
  have hlength := message.length_bytes
  rw [uint32_of_lt message.size_lt, ← hlength]
  obtain ⟨hcomplete, hrest⟩ := h.reassembles.take (getElem?_bytes hmessage)
    (hlength.trans_le hsize)
  rw [hcomplete]
  refine ⟨deserialize_serialize message.fits message.payload, hrest, ?_⟩
  obtain ⟨htaken, rfl⟩ := List.getElem?_eq_some_iff.mp hmessage
  have hpayload : messages[taken].bytes.drop getSerializedSize = messages[taken].payload := by
    rw [Message.bytes, ← length_serialize messages[taken].header, List.drop_left]
  rw [hpayload, List.take_succ_eq_append_getElem htaken, List.map_append, ← h.traced, tracedFrom,
    tracedFrom, List.filter_append, List.map_append]
  simp

theorem tracedFrom_concat_of_ne {peer : Address} (hne : peer ≠ sender) (complete : List UInt8)
    (header : SeqTsSizeHeader) :
    tracedFrom peer (traced ++ [⟨complete, sender, localAddress, header⟩]) =
      tracedFrom peer traced := by
  simp [tracedFrom, hne.symm]

/-- What is left is not more than a header. -/
theorem Follows.waits (h : Follows messages received sender taken buffer traced)
    (hshort : buffer.length ≤ getSerializedSize) : Waits messages taken buffer := by
  intro message hmessage
  have hlength := message.length_bytes
  have hsize := message.size_eq
  by_cases hall : message.bytes.length ≤ buffer.length
  · have hpayload : message.payload.length = 0 := by omega
    obtain ⟨hcomplete, -⟩ := h.reassembles.take (getElem?_bytes hmessage) hall
    rw [List.take_of_length_le (by omega)] at hcomplete
    exact .inr ⟨hcomplete, List.length_eq_zero_iff.mp hpayload⟩
  · exact .inl (by omega)

theorem cut_spec (localAddress : Address) {header : SeqTsSizeHeader}
    (h : Follows messages received sender taken buffer traced)
    (hmessage : messages[taken]? = some message) (hheader : header = message.header) :
    ∃ taken' s, cut sender localAddress buffer header traced = .ok s ∧
      Follows messages received sender taken' s.1 s.2 ∧ Waits messages taken' s.1 ∧
      ∀ peer ≠ sender, tracedFrom peer s.2 = tracedFrom peer traced := by
  fun_induction cut sender localAddress buffer header traced generalizing taken message with
  | case1 buffer header traced hsize complete f =>
    rename_i hfails
    subst hheader
    obtain ⟨hok, -⟩ := h.take localAddress hmessage hsize
    cases hfails.symm.trans hok
  | case2 buffer header traced hsize complete header' hheader' buffer' hlong =>
    rename_i hfails
    subst hheader
    obtain ⟨-, hnext⟩ := h.take localAddress hmessage hsize
    obtain ⟨next, -, hdeserialize⟩ := exists_header hnext.reassembles hlong.le
    cases hfails.symm.trans hdeserialize
  | case3 buffer header traced hsize complete header' hheader' buffer' traced' hlong header'' =>
    rename_i hheader'' ih
    subst hheader
    obtain ⟨hok, hnext⟩ := h.take localAddress hmessage hsize
    cases hheader'.symm.trans hok
    obtain ⟨next, hmessage', hdeserialize⟩ := exists_header hnext.reassembles hlong.le
    cases hheader''.symm.trans hdeserialize
    obtain ⟨taken', s, hs, hfollows, hwaits, hothers⟩ := ih hnext hmessage' rfl
    refine ⟨taken', s, hs, hfollows, hwaits, fun peer hne => ?_⟩
    rw [hothers peer hne]
    exact tracedFrom_concat_of_ne hne _ _
  | case4 buffer header traced hsize complete header' hheader' buffer' =>
    rename_i hshort
    subst hheader
    obtain ⟨hok, hnext⟩ := h.take localAddress hmessage hsize
    cases hheader'.symm.trans hok
    exact ⟨taken + 1, _, rfl, hnext, hnext.waits (Nat.le_of_not_lt hshort), fun peer hne =>
      tracedFrom_concat_of_ne hne _ _⟩
  | case5 buffer header traced hsize =>
    subst hheader
    refine ⟨taken, _, rfl, h, fun next hnext => .inl ?_, fun _ _ => rfl⟩
    obtain rfl : message = next := Option.some.inj (hmessage.symm.trans hnext)
    rw [message.length_bytes]
    exact Nat.lt_of_not_le hsize

/-- One packet is added to the buffer of its peer, and the messages it completes are traced. -/
theorem packetReceived_spec (localAddress : Address) {r : Reassembler} {p : List UInt8}
    (h : Follows messages received sender taken ((r.buffer sender).getD [])
      r.rxTraceWithSeqTsSize)
    (hlong : getSerializedSize ≤ p.length)
    (hsent : received ++ p <+: (messages.map Message.bytes).flatten) :
    ∃ r' taken', packetReceived p sender localAddress r = .ok r' ∧
      Follows messages (received ++ p) sender taken' ((r'.buffer sender).getD [])
        r'.rxTraceWithSeqTsSize ∧
      Waits messages taken' ((r'.buffer sender).getD []) ∧
      ∀ peer ≠ sender, r'.buffer peer = r.buffer peer ∧
        tracedFrom peer r'.rxTraceWithSeqTsSize = tracedFrom peer r.rxTraceWithSeqTsSize := by
  have hnext : Follows messages (received ++ p) sender taken ((r.buffer sender).getD [] ++ p)
      r.rxTraceWithSeqTsSize := ⟨h.reassembles.receive hsent, h.traced⟩
  have hlength : getSerializedSize ≤ ((r.buffer sender).getD [] ++ p).length := by
    rw [List.length_append]
    omega
  obtain ⟨message, hmessage, hheader⟩ := exists_header hnext.reassembles hlength
  obtain ⟨taken', s, hs, hfollows, hwaits, hothers⟩ :=
    cut_spec localAddress hnext hmessage rfl
  have hsize : message.header.size ≠ 0 := by
    have hpos := getSerializedSize_pos
    rw [message.size_eq]
    omega
  have hbuffer : ((Function.update r.buffer sender (some s.1)) sender).getD [] = s.1 := by
    rw [Function.update_self]
    rfl
  refine ⟨⟨Function.update r.buffer sender (some s.1), s.2⟩, taken', ?_, ?_, ?_, ?_⟩
  · rw [packetReceived, hheader, Result.ok_bind, if_neg hsize, hs, Result.ok_bind]
  · exact hbuffer.symm ▸ hfollows
  · exact hbuffer.symm ▸ hwaits
  · exact fun peer hne => ⟨Function.update_of_ne hne _ _, hothers peer hne⟩

end

/-! ## All packets -/

/-- A call of `packetReceived`. -/
structure Reception where
  packet : List UInt8
  sender : Address
  localAddress : Address
  deriving DecidableEq, Repr

def receiveAll (receptions : List Reception) : Result Reassembler :=
  receptions.foldlM (fun r c => packetReceived c.packet c.sender c.localAddress r) {}

/-- What has arrived from a peer. -/
def bytesFrom (peer : Address) (receptions : List Reception) : List UInt8 :=
  receptions.flatMap fun c => if c.sender = peer then c.packet else []

theorem bytesFrom_concat (peer : Address) (receptions : List Reception) (c : Reception) :
    bytesFrom peer (receptions ++ [c]) =
      bytesFrom peer receptions ++ if c.sender = peer then c.packet else [] := by
  rw [bytesFrom, List.flatMap_append, List.flatMap_singleton]
  rfl

theorem receiveAll_concat (receptions : List Reception) (c : Reception) :
    receiveAll (receptions ++ [c]) =
      receiveAll receptions >>= packetReceived c.packet c.sender c.localAddress := by
  rw [receiveAll, List.foldlM_append]
  simp [receiveAll]

theorem waits_nil (messages : List Message) (taken : ℕ) : Waits messages taken [] := by
  intro message _
  have hpos := getSerializedSize_pos
  rw [message.length_bytes, message.size_eq]
  exact .inl (by simp only [List.length_nil]; omega)

/-- Every prefix of the receptions keeps the messages of every peer in order. -/
theorem exists_receiveAll (messages : Address → List Message) {receptions : List Reception}
    (hlong : ∀ c ∈ receptions, getSerializedSize ≤ c.packet.length)
    (hsent : ∀ peer, bytesFrom peer receptions <+: ((messages peer).map Message.bytes).flatten) :
    ∃ r, receiveAll receptions = .ok r ∧ ∀ peer, ∃ taken,
      Follows (messages peer) (bytesFrom peer receptions) peer taken ((r.buffer peer).getD [])
        r.rxTraceWithSeqTsSize ∧ Waits (messages peer) taken ((r.buffer peer).getD []) := by
  induction receptions using List.reverseRecOn with
  | nil => exact ⟨{}, rfl, fun peer => ⟨0, ⟨.start _, rfl⟩, waits_nil _ _⟩⟩
  | append_singleton receptions c ih =>
    have hbefore : ∀ peer, bytesFrom peer receptions <+:
        ((messages peer).map Message.bytes).flatten := by
      intro peer
      refine List.IsPrefix.trans ?_ (hsent peer)
      rw [bytesFrom_concat]
      exact List.prefix_append _ _
    rw [List.forall_mem_append, List.forall_mem_singleton] at hlong
    obtain ⟨r, hr, hall⟩ := ih hlong.1 hbefore
    obtain ⟨taken, hfollows, -⟩ := hall c.sender
    have hsender := hsent c.sender
    rw [bytesFrom_concat, if_pos rfl] at hsender
    obtain ⟨r', taken', hr', hfollows', hwaits', hothers⟩ :=
      packetReceived_spec c.localAddress hfollows hlong.2 hsender
    refine ⟨r', ?_, fun peer => ?_⟩
    · rw [receiveAll_concat, hr, Result.ok_bind, hr']
    · rw [bytesFrom_concat]
      by_cases hpeer : c.sender = peer
      · subst hpeer
        rw [if_pos rfl]
        exact ⟨taken', hfollows', hwaits'⟩
      · obtain ⟨hbuffer, htraced⟩ := hothers peer (Ne.symm hpeer)
        obtain ⟨taken, hfollows, hwaits⟩ := hall peer
        rw [if_neg hpeer, List.append_nil, hbuffer]
        exact ⟨taken, ⟨hfollows.reassembles, htraced.trans hfollows.traced⟩, hwaits⟩

/-- Once everything has arrived, at most one message is left, and it has no payload. -/
theorem drop_of_waits {messages : List Message} {received buffer : List UInt8} {taken : ℕ}
    (h : Reassembles (messages.map Message.bytes) received taken buffer)
    (hwaits : Waits messages taken buffer)
    (hall : received = (messages.map Message.bytes).flatten) :
    messages.drop taken = [] ∨
      ∃ last, messages.drop taken = [last] ∧ last.payload = [] := by
  have hbuffer := h.buffer_eq hall
  rw [← List.map_drop] at hbuffer
  cases hdrop : messages.drop taken with
  | nil => exact .inl rfl
  | cons message rest =>
    have hmessage : messages[taken]? = some message := by
      rw [← List.head?_drop, hdrop]
      rfl
    rw [hdrop, List.map_cons, List.flatten_cons] at hbuffer
    rcases hwaits message hmessage with hshort | ⟨hlast, hpayload⟩
    · rw [hbuffer, List.length_append] at hshort
      omega
    · rw [hlast, List.self_eq_append_right, List.flatten_eq_nil_iff] at hbuffer
      cases rest with
      | nil => exact .inr ⟨message, rfl, hpayload⟩
      | cons next rest =>
        have hnone := hbuffer next.bytes (List.mem_map_of_mem List.mem_cons_self)
        have hlength := next.length_bytes
        have hpos := getSerializedSize_pos
        rw [hnone, next.size_eq, List.length_nil] at hlength
        omega

/-- Whatever way the streams of the peers are cut into packets that hold a header, and however
these are interleaved, no packet fails. The messages of every peer are traced in order, each once;
the buffer holds the rest of what has arrived, which is not a whole message, unless it is one
without a payload. Once everything has arrived from a peer, only such a message can be left. -/
theorem messages_traced (messages : Address → List Message) {receptions : List Reception}
    (hlong : ∀ c ∈ receptions, getSerializedSize ≤ c.packet.length)
    (hsent : ∀ peer, bytesFrom peer receptions <+: ((messages peer).map Message.bytes).flatten) :
    ∃ r, receiveAll receptions = .ok r ∧ ∀ peer, ∃ taken,
      tracedFrom peer r.rxTraceWithSeqTsSize =
          ((messages peer).take taken).map (fun message => (message.header, message.payload)) ∧
        (((messages peer).take taken).map Message.bytes).flatten ++ (r.buffer peer).getD [] =
          bytesFrom peer receptions ∧
        Waits (messages peer) taken ((r.buffer peer).getD []) ∧
        (bytesFrom peer receptions = ((messages peer).map Message.bytes).flatten →
          (messages peer).drop taken = [] ∨
            ∃ last, (messages peer).drop taken = [last] ∧ last.payload = []) := by
  obtain ⟨r, hr, hall⟩ := exists_receiveAll messages hlong hsent
  refine ⟨r, hr, fun peer => ?_⟩
  obtain ⟨taken, hfollows, hwaits⟩ := hall peer
  have hreceived := hfollows.reassembles.received_eq
  rw [← List.map_take] at hreceived
  exact ⟨taken, hfollows.traced, hreceived.symm, hwaits,
    drop_of_waits hfollows.reassembles hwaits⟩

/-- Three messages of a peer, and one of another peer. -/
def sampleMessages (peer : Address) : List Message :=
  if peer = ⟨1, 8080⟩ then [⟨⟨23, 0, 5⟩, [1, 2, 3], rfl, by decide, by decide, by decide⟩,
    ⟨⟨20, 1, 6⟩, [], rfl, by decide, by decide, by decide⟩,
    ⟨⟨21, 2, 7⟩, [4], rfl, by decide, by decide, by decide⟩]
  else if peer = ⟨2, 8080⟩ then [⟨⟨22, 0, 300⟩, [5, 6], rfl, by decide, by decide, by decide⟩]
  else []

/-- The packets do not end where the messages end. -/
def sampleReceptions : List Reception :=
  let first := ((sampleMessages ⟨1, 8080⟩).map Message.bytes).flatten
  let second := ((sampleMessages ⟨2, 8080⟩).map Message.bytes).flatten
  [⟨first.take 21, ⟨1, 8080⟩, ⟨9, 8080⟩⟩, ⟨second, ⟨2, 8080⟩, ⟨9, 8080⟩⟩,
    ⟨first.drop 21, ⟨1, 8080⟩, ⟨9, 8080⟩⟩]

theorem messages_traced_sample :
    ∃ r, receiveAll sampleReceptions = .ok r ∧
      tracedFrom ⟨1, 8080⟩ r.rxTraceWithSeqTsSize =
        (sampleMessages ⟨1, 8080⟩).map fun message => (message.header, message.payload) := by
  have hsent : ∀ peer, bytesFrom peer sampleReceptions =
      ((sampleMessages peer).map Message.bytes).flatten := by
    intro peer
    by_cases hfirst : peer = ⟨1, 8080⟩
    · rw [hfirst]
      decide +kernel
    · by_cases hsecond : peer = ⟨2, 8080⟩
      · rw [hsecond]
        decide +kernel
      · simp [bytesFrom, sampleReceptions, sampleMessages, hfirst, hsecond, Ne.symm hfirst,
          Ne.symm hsecond]
  have hlong : ∀ c ∈ sampleReceptions, getSerializedSize ≤ c.packet.length := by decide +kernel
  obtain ⟨r, hr, hall⟩ := messages_traced sampleMessages hlong fun peer =>
    hsent peer ▸ List.prefix_refl _
  obtain ⟨taken, htraced, -, -, hleft⟩ := hall ⟨1, 8080⟩
  refine ⟨r, hr, ?_⟩
  have htaken : (sampleMessages ⟨1, 8080⟩).drop taken = [] := by
    rcases hleft (hsent _) with hnone | ⟨last, hlast, hpayload⟩
    · exact hnone
    · have hmem := congrArg List.getLast? hlast
      rw [List.getLast?_drop] at hmem
      split_ifs at hmem with hle
      · exact List.drop_of_length_le hle
      · cases hmem
        cases hpayload
  rw [htraced, List.take_of_length_le (List.drop_eq_nil_iff.mp htaken)]

end Reassembler

end SdWan
