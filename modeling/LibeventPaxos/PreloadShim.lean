import LibeventPaxos.ReadLoops

/-!
`client-ld-preload/pctern.c`: the `send` and `write` an application calls, which put a header in
front of the bytes of each call. As long as the socket takes the bytes of a call all together or
not at all, the proxy gets the stream of the application; a call that is split leaves a frame
unfinished, and what the application sends again gets a header of its own.
-/
namespace LibeventPaxos

open Lib

/-! ## The library -/

/-- The branch of `send` and `write` for the client: what the socket takes, and the value returned,
when the function underneath returns `result`. -/
def sendRequest (padding : UInt32) (buffer : List UInt8) (result : Int) : List UInt8 × Int :=
  let request : ClientMsg := ⟨padding, buffer⟩
  (request.bytes.take result.toNat, if result > 0 then result - 16 else result)

/-- The branch that passes the call on. -/
def sendPlain (buffer : List UInt8) (result : Int) : List UInt8 × Int :=
  (buffer.take result.toNat, result)

/-- `send`; `checkSys` is set while the library is in one of its own calls. -/
def shimSend (checkSys : Bool) (padding : UInt32) (buffer : List UInt8) (result : Int) :
    List UInt8 × Int :=
  if checkSys then sendPlain buffer result else sendRequest padding buffer result

/-- `write`, which also serves files. -/
def shimWrite (checkSys isSocket : Bool) (padding : UInt32) (buffer : List UInt8) (result : Int) :
    List UInt8 × Int :=
  if !checkSys && isSocket then sendRequest padding buffer result else sendPlain buffer result

/-! ## An application -/

/-- An application with a stream to send. `sent` is what the returned values have counted, `wire`
what the socket has taken. The last two are histories: whether a message was split, and the length
and the result of each call. -/
structure ShimClient where
  stream : List UInt8
  sent : ℕ
  wire : List UInt8
  split : Bool
  returned : List (ℕ × Int)
  deriving DecidableEq, Repr

/-- A call with the next `length` bytes, by either function, for which the one underneath returns
`result`. -/
structure ShimCall where
  isWrite : Bool
  padding : UInt32
  length : ℕ
  result : Int
  deriving DecidableEq, Repr

namespace ShimClient

/-- The bytes beyond those that were counted. -/
def buffer (s : ShimClient) (call : ShimCall) : List UInt8 :=
  (s.stream.drop s.sent).take call.length

/-- The client's own calls find `check_sys` cleared. -/
def answer (s : ShimClient) (call : ShimCall) : List UInt8 × Int :=
  if call.isWrite then shimWrite false true call.padding (s.buffer call) call.result
  else shimSend false call.padding (s.buffer call) call.result

/-- The socket takes a part of the message. -/
def Splits (call : ShimCall) : Prop := 0 < call.result ∧ call.result < 16 + call.length

instance (call : ShimCall) : Decidable (Splits call) := inferInstanceAs (Decidable (_ ∧ _))

/-- A result that is not negative counts the bytes not to be sent again. -/
def call (s : ShimClient) (call : ShimCall) : ShimClient :=
  let (bytes, result) := s.answer call
  { s with
    sent := if 0 ≤ result then s.sent + result.toNat else s.sent
    wire := s.wire ++ bytes
    split := s.split || decide (Splits call)
    returned := s.returned ++ [(call.length, result)] }

/-- The application sends no more than it has, and the function underneath returns -1 or the
number of bytes it has put on the wire. -/
structure Possible (s : ShimClient) (call : ShimCall) : Prop where
  length : call.length ≤ s.stream.length - s.sent
  size : call.length + 16 < 2 ^ 63
  result : call.result = -1 ∨ 0 ≤ call.result ∧ call.result ≤ 16 + call.length

instance (s : ShimClient) (call : ShimCall) : Decidable (Possible s call) :=
  decidable_of_iff (call.length ≤ s.stream.length - s.sent ∧ call.length + 16 < 2 ^ 63 ∧
    (call.result = -1 ∨ 0 ≤ call.result ∧ call.result ≤ 16 + call.length))
    ⟨fun h => ⟨h.1, h.2.1, h.2.2⟩, fun h => ⟨h.length, h.size, h.result⟩⟩

def machine : Machine ShimClient ShimCall where
  initial s := ∃ stream, s = ⟨stream, 0, [], false, []⟩
  enabled := Possible
  apply := call

instance (s : ShimClient) (call : ShimCall) : Decidable (machine.enabled s call) :=
  inferInstanceAs (Decidable (Possible s call))

/-! ## What the proxy gets -/

/-- A connection of a proxy to which nothing has come yet. -/
structure Fresh (proxy : ProxyNode) (key : UInt64) : Prop where
  running : proxy.fault = none
  connected : proxy.conConn = true
  pair : ∃ pair, proxy.hashMap key = some pair ∧ pair.client = some []

/-- The requests a proxy makes of what has arrived of the wire carry a prefix of the stream, and
all of it once everything was counted and has arrived; results are -1 or at most the length. -/
structure Kept (s : ShimClient) : Prop where
  stream : ∀ (proxy : ProxyNode) (key : UInt64) (events : List (ProxyEnv × List UInt8))
    (ahead : List UInt8), Fresh proxy key → (events.map Prod.snd).flatten ++ ahead = s.wire →
    ∃ added, (ProxyNode.clientReads key proxy events).requests = proxy.requests ++ added ∧
      (added.map fun request => request.msg.data).flatten <+: s.stream ∧
      (ahead = [] → s.sent = s.stream.length →
        (added.map fun request => request.msg.data).flatten = s.stream)
  returned : ∀ entry ∈ s.returned, entry.2 = -1 ∨ 0 ≤ entry.2 ∧ entry.2 ≤ entry.1

/-- The message is not split; or it is the first to be, and behind 15 bytes at least, so that the
value returned is not below -1. -/
def Whole (s : ShimClient) (call : ShimCall) : Prop :=
  call.result ≤ 0 ∨ s.split = false ∧ 15 ≤ call.result

instance (s : ShimClient) (call : ShimCall) : Decidable (Whole s call) :=
  inferInstanceAs (Decidable (_ ∨ _))

/-! ## Runs without a second write behind a split one -/

/-- What is on the wire: whole messages and, if one was split, the first part of it. -/
structure Carries (s : ShimClient) (done later : List ClientMsg) (part rest : List UInt8) :
    Prop where
  wire : s.wire = (done.map ClientMsg.bytes).flatten ++ part
  next : part ++ rest = (later.map ClientMsg.bytes).flatten
  short : ∀ msg ∈ later.head?, part.length < msg.bytes.length
  data : ((done ++ later).map ClientMsg.data).flatten <+: s.stream
  small : ∀ msg ∈ done ++ later, msg.data.length + 16 < 2 ^ 63
  counted : s.sent ≤ s.stream.length
  complete : s.sent = s.stream.length → (done.map ClientMsg.data).flatten = s.stream
  unsplit : s.split = false → later = [] ∧
    (done.map ClientMsg.data).flatten = s.stream.take s.sent
  returned : ∀ entry ∈ s.returned, entry.2 = -1 ∨ 0 ≤ entry.2 ∧ entry.2 ≤ entry.1

theorem carries_start (stream : List UInt8) :
    Carries ⟨stream, 0, [], false, []⟩ [] [] [] [] := by
  refine ⟨rfl, rfl, by simp, by simp, by simp, by simp, ?_, fun _ => ⟨rfl, by simp⟩, by simp⟩
  intro all
  exact (List.eq_nil_of_length_eq_zero all.symm).symm

/-- The message a call makes. -/
def message (s : ShimClient) (call : ShimCall) : ClientMsg := ⟨call.padding, s.buffer call⟩

/-- Both functions put a header in front. -/
theorem answer_eq (s : ShimClient) (call : ShimCall) :
    s.answer call = ((s.message call).bytes.take call.result.toNat,
      if call.result > 0 then call.result - 16 else call.result) := by
  rw [answer]
  split <;> rfl

theorem length_data {s : ShimClient} {call : ShimCall} (possible : Possible s call) :
    (s.message call).data.length = call.length := by
  rw [message, buffer, List.length_take, List.length_drop]
  exact Nat.min_eq_left possible.length

/-- A call that puts nothing on the wire counts nothing. -/
theorem Carries.quiet {s : ShimClient} {done later : List ClientMsg} {part rest : List UInt8}
    (carries : Carries s done later part rest) {call : ShimCall} (possible : Possible s call)
    (nothing : call.result ≤ 0) : Carries (s.call call) done later part rest := by
  have zero : call.result.toNat = 0 := by omega
  have unsplit : ¬ Splits call := fun splits => by
    have positive := splits.1
    omega
  have same : s.call call = { s with returned := s.returned ++ [(call.length, call.result)] } := by
    simp only [ShimClient.call, answer_eq, zero, List.take_zero, List.append_nil,
      if_neg (by omega : ¬ call.result > 0), Nat.add_zero, ite_self, decide_eq_false unsplit,
      Bool.or_false]
  rw [same]
  refine { carries with returned := ?_ }
  intro entry member
  rcases List.mem_append.mp member with earlier | now
  · exact carries.returned entry earlier
  · rw [List.mem_singleton.mp now]
    rcases possible.result with error | ⟨least, most⟩
    · exact .inl error
    · exact .inr ⟨least, by show call.result ≤ call.length; omega⟩

/-- A call whose bytes all go on the wire. -/
theorem Carries.whole {s : ShimClient} {done later : List ClientMsg} {part rest : List UInt8}
    (carries : Carries s done later part rest) {call : ShimCall} (possible : Possible s call)
    (unsplit : s.split = false) (all : call.result = 16 + call.length) :
    Carries (s.call call) (done ++ [s.message call]) [] [] [] := by
  obtain ⟨rfl, data⟩ := carries.unsplit unsplit
  obtain ⟨rfl, -⟩ := List.append_eq_nil_iff.mp carries.next
  have length := length_data possible
  have bytes : (s.message call).bytes.length = 16 + call.length := by
    rw [ProxyNode.length_clientMsg, length]
  have request : (s.message call).bytes.take call.result.toNat =
      (s.message call).bytes := List.take_of_length_le (by omega)
  have kept : ¬ Splits call := fun splits => by
    have less := splits.2
    omega
  have result : call.result - 16 = (call.length : Int) := by omega
  have same : s.call call = { s with
      sent := s.sent + call.length
      wire := s.wire ++ (s.message call).bytes
      returned := s.returned ++ [(call.length, (call.length : Int))] } := by
    simp only [ShimClient.call, answer_eq, request, result,
      if_pos (by omega : call.result > 0), decide_eq_false kept, Bool.or_false,
      Int.natCast_nonneg, if_true, Int.toNat_natCast]
  have more : ((done ++ [s.message call]).map ClientMsg.data).flatten =
      s.stream.take (s.sent + call.length) := by
    rw [List.map_append, List.flatten_append, data, List.take_add]
    simp [message, buffer]
  have left := possible.length
  have counted := carries.counted
  rw [same]
  refine ⟨?_, rfl, by simp, ?_, ?_, ?_, ?_, fun _ => ⟨rfl, more⟩, ?_⟩
  · simp [carries.wire]
  · rw [List.append_nil, more]
    exact List.take_prefix _ _
  · intro msg member
    rw [List.append_nil] at member
    rcases List.mem_append.mp member with earlier | now
    · exact carries.small msg (by rwa [List.append_nil])
    · rw [List.mem_singleton.mp now, length]
      exact possible.size
  · show s.sent + call.length ≤ s.stream.length
    omega
  · intro every
    rw [more]
    exact List.take_of_length_le (Nat.le_of_eq every.symm)
  · intro entry member
    rcases List.mem_append.mp member with earlier | now
    · exact carries.returned entry earlier
    · rw [List.mem_singleton.mp now]
      exact .inr ⟨Int.natCast_nonneg _, le_rfl⟩

/-- The first call that is split, behind 15 bytes at least. -/
theorem Carries.part {s : ShimClient} {done later : List ClientMsg} {part rest : List UInt8}
    (carries : Carries s done later part rest) {call : ShimCall} (possible : Possible s call)
    (unsplit : s.split = false) (least : 15 ≤ call.result)
    (most : call.result < 16 + call.length) :
    Carries (s.call call) done [s.message call]
      ((s.message call).bytes.take call.result.toNat)
      ((s.message call).bytes.drop call.result.toNat) := by
  obtain ⟨rfl, data⟩ := carries.unsplit unsplit
  obtain ⟨rfl, -⟩ := List.append_eq_nil_iff.mp carries.next
  have length := length_data possible
  have bytes : (s.message call).bytes.length = 16 + call.length := by
    rw [ProxyNode.length_clientMsg, length]
  have splits : Splits call := ⟨by omega, most⟩
  have positive : call.result > 0 := by omega
  have same : s.call call = { s with
      sent := if 0 ≤ call.result - 16 then s.sent + (call.result - 16).toNat else s.sent
      wire := s.wire ++
        (s.message call).bytes.take call.result.toNat
      split := true
      returned := s.returned ++ [(call.length, call.result - 16)] } := by
    simp only [ShimClient.call, answer_eq, if_pos positive, decide_eq_true splits,
      Bool.or_true]
  have left := possible.length
  have counted := carries.counted
  have nobody_new : s.stream.take s.sent ++ (s.message call).data =
      s.stream.take (s.sent + call.length) := by rw [List.take_add, message, buffer]
  rw [same]
  refine ⟨?_, by simp, ?_, ?_, ?_, ?_, ?_, by simp, ?_⟩
  · rw [carries.wire, List.append_nil]
  · intro msg first
    obtain rfl := Option.some.inj first
    rw [List.length_take]
    omega
  · simp only [List.map_append, List.map_cons, List.map_nil, List.flatten_append,
      List.flatten_singleton, data, nobody_new]
    exact List.take_prefix _ _
  · intro msg member
    rcases List.mem_append.mp member with earlier | now
    · exact carries.small msg (by rwa [List.append_nil])
    · rw [List.mem_singleton.mp now, length]
      exact possible.size
  · simp only
    split <;> omega
  · -- only a message without data can be split with nothing left to count
    intro every
    simp only at every
    split at every
    next some_counted => omega
    next none_counted =>
      rw [data]
      exact List.take_of_length_le (Nat.le_of_eq every.symm)
  · intro entry member
    rcases List.mem_append.mp member with earlier | now
    · exact carries.returned entry earlier
    · rw [List.mem_singleton.mp now]
      simp only
      omega

/-- One call. -/
theorem Carries.call {s : ShimClient} {done later : List ClientMsg} {part rest : List UInt8}
    (carries : Carries s done later part rest) (call : ShimCall) (possible : Possible s call)
    (whole : Whole s call) :
    ∃ done later part rest, Carries (s.call call) done later part rest := by
  rcases whole with nothing | ⟨unsplit, least⟩
  · exact ⟨_, _, _, _, carries.quiet possible nothing⟩
  · have most : call.result ≤ 16 + call.length := by
      rcases possible.result with error | ⟨-, most⟩ <;> omega
    by_cases all : call.result = 16 + call.length
    · exact ⟨_, _, _, _, carries.whole possible unsplit all⟩
    · exact ⟨_, _, _, _, carries.part possible unsplit least (by omega)⟩

/-! ## The requests of the proxy -/

theorem withInput_requests (proxy : ProxyNode) (key : UInt64) (input : List UInt8) :
    (proxy.withInput key input).requests = proxy.requests := by
  rw [ProxyNode.withInput]
  split <;> rfl

/-- Each message becomes a request with its data. -/
theorem processFrames_msgs {key : UInt64} (passed : List (ProxyEnv × List UInt8))
    (msgs : List ClientMsg) (order : passed.map Prod.snd = msgs.map ClientMsg.bytes)
    (fits : ∀ msg ∈ msgs, msg.data.length < 2 ^ 64) (proxy : ProxyNode) (pair : SocketPair)
    (found : proxy.hashMap key = some pair) (connected : proxy.conConn = true) :
    ∃ added, (ProxyNode.processFrames key proxy passed).requests = proxy.requests ++ added ∧
      (added.map fun request => request.msg.data) = msgs.map ClientMsg.data := by
  induction passed generalizing msgs proxy pair with
  | nil =>
    obtain rfl := List.map_eq_nil_iff.mp order.symm
    exact ⟨[], (List.append_nil _).symm, rfl⟩
  | cons e passed ih =>
    cases msgs with
    | nil => simp at order
    | cons msg msgs =>
      rw [List.map_cons, List.map_cons, List.cons.injEq] at order
      have small := fits msg List.mem_cons_self
      have step := ProxyNode.clientProcessData_write e.1 proxy msg small pair found connected
      rw [← order.1] at step
      have rest := ih msgs order.2 (fun other member => fits other (List.mem_cons_of_mem _ member))
        (ProxyNode.clientProcessData e.1 key proxy e.2)
        { pair with counter := pair.counter + 1 }
        (by rw [step]; exact ProxyNode.hashMap_setPair_self _) (by rw [step]; exact connected)
      obtain ⟨added, requests, data⟩ := rest
      refine ⟨ProxyNode.buildReqSubMsg e.1
        (ProxyNode.proxyMsg e.1 key pair.counter .send msg.data small) :: added, ?_, ?_⟩
      · have first : ProxyNode.processFrames key proxy (e :: passed) =
            ProxyNode.processFrames key (ProxyNode.clientProcessData e.1 key proxy e.2) passed :=
          rfl
        rw [first, requests, step]
        simp
      · rw [List.map_cons, data, List.map_cons]
        rfl

theorem Carries.kept {s : ShimClient} {done later : List ClientMsg} {part rest : List UInt8}
    (carries : Carries s done later part rest) : Kept s := by
  refine ⟨?_, carries.returned⟩
  intro proxy key events ahead fresh arrived
  obtain ⟨pair, found, client⟩ := fresh.pair
  have whole : ∀ frame ∈ (done ++ later).map ClientMsg.bytes,
      IsFrame 16 ProxyNode.clientTotal frame := by
    intro frame member
    obtain ⟨msg, listed, rfl⟩ := List.mem_map.mp member
    exact isFrame_client 0 msg.padding msg.data (lt_trans (carries.small msg listed) (by decide))
  have short : ∀ frame ∈ ((done ++ later).map ClientMsg.bytes).head?,
      ([] : List UInt8).length < frame.length := by
    intro frame first
    have header := (whole frame (List.mem_of_mem_head? first)).whole
    rw [List.length_nil]
    omega
  have stream : [] ++ (events.map Prod.snd).flatten ++ (ahead ++ rest) =
      ((done ++ later).map ClientMsg.bytes).flatten := by
    rw [List.nil_append, ← List.append_assoc, arrived, carries.wire, List.append_assoc,
      carries.next, List.map_append, List.flatten_append]
  obtain ⟨read, tail, run, taken⟩ := readChunks_readOf 16 ProxyNode.clientTotal (by omega) _ whole
    [] (events.map Prod.snd) (ahead ++ rest) short stream
  obtain ⟨more, split, -, -⟩ := id taken
  obtain ⟨msgs, others, msgs_split, rfl, -⟩ := List.map_eq_append_iff.mp split
  have fits : ∀ msg ∈ msgs, msg.data.length + 16 < 2 ^ 63 := fun msg member =>
    carries.small msg (by rw [msgs_split]; exact List.mem_append_left _ member)
  obtain ⟨passed, order, result⟩ := ProxyNode.clientReads_passes events [] _ tail found
    fresh.running client run (by
      intro frame member
      obtain ⟨msg, listed, rfl⟩ := List.mem_map.mp member
      have size := fits msg listed
      rw [ProxyNode.length_clientMsg]
      omega)
  obtain ⟨added, requests, data⟩ := processFrames_msgs passed msgs order
    (fun msg member => by have size := fits msg member; omega) proxy pair found fresh.connected
  refine ⟨added, by rw [result, withInput_requests, requests], ?_, ?_⟩
  · rw [data]
    have front : (msgs.map ClientMsg.data).flatten <+:
        ((done ++ later).map ClientMsg.data).flatten := by
      rw [msgs_split, List.map_append, List.flatten_append]
      exact List.prefix_append _ _
    exact front.trans carries.data
  · rintro rfl all
    -- everything has arrived, so the reader has taken the whole messages
    have there : ReadOf ((done ++ later).map ClientMsg.bytes) ([] ++ rest)
        (done.map ClientMsg.bytes) part := by
      refine ⟨later.map ClientMsg.bytes, List.map_append, carries.next, ?_⟩
      intro frame first
      rw [List.head?_map, Option.mem_map] at first
      obtain ⟨msg, head, rfl⟩ := first
      exact carries.short msg head
    have same := (taken.unique there).1
    have lengths := congrArg List.length same
    rw [List.length_map, List.length_map] at lengths
    obtain ⟨rfl, -⟩ := List.append_inj msgs_split lengths.symm
    rw [data]
    exact carries.complete all

/-- A run in which no message goes on the wire behind a split one, and none is split within its
first 15 bytes, keeps the stream. -/
theorem kept_of_whole (s : ShimClient) (reached : machine.Reaches Whole s) : Kept s := by
  have carried : ∃ done later part rest, Carries s done later part rest := by
    apply reached.invariant
    · rintro _ ⟨stream, rfl⟩
      exact ⟨_, _, _, _, carries_start stream⟩
    · rintro s call ⟨done, later, part, rest, carries⟩ whole possible
      exact carries.call call possible whole
  obtain ⟨done, later, part, rest, carries⟩ := carried
  exact carries.kept

/-! ## Runs on fixed calls -/

def ofThree : ShimClient := ⟨[1, 2, 3], 0, [], false, []⟩

/-- Two bytes are sent, the last one is refused once and sent again. -/
def unsplitCalls : List ShimCall :=
  [⟨false, 0, 2, 18⟩, ⟨true, 0, 1, -1⟩, ⟨true, 0, 1, 17⟩]

theorem unsplitCalls_kept : Kept (unsplitCalls.foldl call ofThree) := by
  have accepts : machine.Accepts Whole ofThree unsplitCalls := by decide
  exact kept_of_whole _ ⟨ofThree, ⟨[1, 2, 3], rfl⟩, accepts.run⟩

/-- Of three bytes one goes on the wire; the other two are sent again, with a header that the proxy
takes for the data the first one has announced. -/
def splitCalls : List ShimCall := [⟨false, 0, 3, 17⟩, ⟨false, 0, 2, 18⟩]

/-- The socket takes five bytes of a header, and the value returned is -11. -/
def splitHeader : List ShimCall := [⟨false, 0, 3, 5⟩]

/-- A proxy with a new connection under key 4. -/
def newConnection : ProxyNode :=
  { ProxyNode.init 0 with conConn := true }.setPair 4 ⟨1, false, some []⟩

def readEnv : ProxyEnv := ⟨⟨0, 0⟩, ⟨0, 0⟩, 0, 0, fun _ => 0⟩

theorem splitCalls_not_kept :
    (machine.Reaches Machine.anything (splitCalls.foldl call ofThree) ∧
      ¬ Kept (splitCalls.foldl call ofThree)) ∧
    (splitHeader.foldl call ofThree).returned = [(3, -11)] ∧
      ¬ Kept (splitHeader.foldl call ofThree) := by
  have accepts : machine.Accepts Machine.anything ofThree splitCalls := by decide
  refine ⟨⟨⟨ofThree, ⟨[1, 2, 3], rfl⟩, accepts.run⟩, fun kept => ?_⟩, by decide, fun kept => ?_⟩
  · obtain ⟨added, requests, front, -⟩ := kept.stream newConnection 4
      [(readEnv, (splitCalls.foldl call ofThree).wire)] []
      ⟨rfl, rfl, ⟨1, false, some []⟩, rfl, rfl⟩ (by simp)
    have data : ((ProxyNode.clientReads 4 newConnection
        [(readEnv, (splitCalls.foldl call ofThree).wire)]).requests.map
          fun request => request.msg.data) = [[1, 0, 0]] := by
      decide
    rw [requests] at data
    have none_before : newConnection.requests = [] := rfl
    rw [none_before, List.nil_append] at data
    rw [data] at front
    exact absurd front (by decide)
  · have outside := kept.returned (3, -11) (by decide)
    omega

end ShimClient

end LibeventPaxos
