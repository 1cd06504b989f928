import LibeventPaxos.ClientStream

/-!
The two loops that take frames out of a stream: `replica_on_read`, which narrows `data_size` to an
int, and `client_side_on_read`, which keeps it a `size_t`. However a stream of frames is cut, both
pass on the frames; only a size that wraps stops them from advancing.
-/
namespace LibeventPaxos

open Lib

/-- `data_size` of a header. -/
def headerDataSize (header : List UInt8) : ℕ := littleEndianValue (header.drop 8)

/-- A frame below 2 GiB whose header tells its length. -/
structure WireFrame (frame : List UInt8) : Prop where
  header : 16 ≤ frame.length
  dataSize : headerDataSize (frame.take 16) = frame.length - 16
  small : frame.length < 2 ^ 31

/-! ## Totals -/

theorem sysTotal_eq (header : List UInt8) :
    sysTotal header =
      ((16 + (headerDataSize header : Int).bmod (2 ^ 32)) % 2 ^ 64).toNat := rfl

theorem clientTotal_eq (header : List UInt8) :
    ProxyNode.clientTotal header = (16 + headerDataSize header) % 2 ^ 64 := rfl

theorem WireFrame.isFrame_sys {frame : List UInt8} (wire : WireFrame frame) :
    IsFrame 16 sysTotal frame where
  whole := wire.header
  total := by
    have whole := wire.header
    have small := wire.small
    have narrow : ((frame.length - 16 : ℕ) : Int).bmod (2 ^ 32) = ((frame.length - 16 : ℕ) : Int) :=
      Int.bmod_eq_of_le (by omega) (by omega)
    rw [sysTotal_eq, wire.dataSize, narrow]
    omega

theorem WireFrame.isFrame_client {frame : List UInt8} (wire : WireFrame frame) :
    IsFrame 16 ProxyNode.clientTotal frame where
  whole := wire.header
  total := by
    have whole := wire.header
    have small := wire.small
    rw [clientTotal_eq, wire.dataSize]
    omega

/-- The int is between -16 and -1. -/
theorem sysTotal_lt_iff (header : List UInt8) :
    sysTotal header < 16 ↔ 2 ^ 32 - 16 ≤ headerDataSize header % 2 ^ 32 := by
  have lower := Int.le_bmod (x := headerDataSize header) (m := 2 ^ 32) (by decide)
  have upper := Int.bmod_lt (x := headerDataSize header) (m := 2 ^ 32) (by decide)
  have cong := Int.bmod_emod (x := (headerDataSize header : Int)) (m := 2 ^ 32)
  rw [sysTotal_eq]
  generalize (headerDataSize header : Int).bmod (2 ^ 32) = narrow at *
  omega

/-- The sum wraps. -/
theorem clientTotal_lt_iff (header : List UInt8) (word : headerDataSize header < 2 ^ 64) :
    ProxyNode.clientTotal header < 16 ↔ 2 ^ 64 - 16 ≤ headerDataSize header := by
  rw [clientTotal_eq]
  omega

/-! ## `replica_on_read` -/

/-- One call of `replica_on_read` on its input; `dispatch` is the switch of `handle_msg`, which gets
the bytes of a frame. There is no result if the call does not end. -/
def replicaOnRead {σ : Type} (dispatch : σ → List UInt8 → σ) (s : σ) (input : List UInt8) :
    Option (σ × List UInt8) :=
  readLoop 16 sysTotal dispatch (input.length + 1) s input

/-- One call after the other, each with the chunk that has arrived since. -/
def replicaReads {σ : Type} (dispatch : σ → List UInt8 → σ) :
    σ → List UInt8 → List (List UInt8) → Option (σ × List UInt8)
  | s, input, [] => some (s, input)
  | s, input, chunk :: chunks =>
    match replicaOnRead dispatch s (input ++ chunk) with
    | none => none
    | some (s', rest) => replicaReads dispatch s' rest chunks

theorem replicaReads_eq {σ : Type} (dispatch : σ → List UInt8 → σ) (s : σ) (input : List UInt8)
    (chunks : List (List UInt8)) :
    replicaReads dispatch s input chunks = readEvents 16 sysTotal dispatch s input chunks := by
  induction chunks generalizing s input with
  | nil => rfl
  | cons chunk chunks ih =>
    rw [replicaReads, readEvents, replicaOnRead]
    cases readLoop 16 sysTotal dispatch ((input ++ chunk).length + 1) s (input ++ chunk) with
    | none => rfl
    | some read => exact ih read.1 read.2

namespace ProxyNode

/-! ## `client_side_on_read` -/

/-- The proxy with what is left in the input of a client replaced. -/
def withInput (proxy : ProxyNode) (key : UInt64) (input : List UInt8) : ProxyNode :=
  match proxy.hashMap key with
  | none => proxy
  | some pair => proxy.setPair key { pair with client := some input }

/-- One read after the other on a connection, each with its chunk. -/
def clientReads (key : UInt64) (proxy : ProxyNode) (events : List (ProxyEnv × List UInt8)) :
    ProxyNode :=
  events.foldl (fun proxy e => proxy.clientSideOnRead e.1 key e.2) proxy

/-- Frames that are passed to `client_process_data` one after the other, each during some call. -/
def processFrames (key : UInt64) (proxy : ProxyNode) (passed : List (ProxyEnv × List UInt8)) :
    ProxyNode :=
  passed.foldl (fun proxy e => clientProcessData e.1 key proxy e.2) proxy

section Client

variable {key : UInt64} {proxy : ProxyNode} {pair : SocketPair}

theorem withInput_of_pair (found : proxy.hashMap key = some pair) (input : List UInt8) :
    proxy.withInput key input = proxy.setPair key { pair with client := some input } := by
  rw [withInput, found]

theorem setPair_setPair (first second : SocketPair) :
    (proxy.setPair key first).setPair key second = proxy.setPair key second := by
  simp only [setPair, Function.update_idem]

theorem setPair_submit (env : ProxyEnv) (msg : ProxyMsg) :
    (proxy.submit env msg).setPair key pair = (proxy.setPair key pair).submit env msg := by
  by_cases connected : proxy.conConn = true <;> simp [submit, setPair, connected]

theorem withInput_withInput (before input : List UInt8) :
    (proxy.withInput key before).withInput key input = proxy.withInput key input := by
  cases found : proxy.hashMap key with
  | none =>
    have unchanged : proxy.withInput key before = proxy := by rw [withInput, found]
    rw [unchanged]
  | some pair =>
    rw [withInput_of_pair found, withInput_of_pair found,
      withInput_of_pair (hashMap_setPair_self _), setPair_setPair]

/-- A frame with a header counts a request at most, and the input makes no difference to it. -/
theorem clientProcessData_sized (env : ProxyEnv) (frame : List UInt8)
    (found : proxy.hashMap key = some pair) (running : proxy.fault = none)
    (header : 16 ≤ frame.length) (fits : frame.length < 2 ^ 64) :
    (∃ counter, (clientProcessData env key proxy frame).hashMap key =
      some { pair with counter := counter }) ∧
    (clientProcessData env key proxy frame).fault = none ∧
    ∀ input, clientProcessData env key (proxy.withInput key input) frame =
      (clientProcessData env key proxy frame).withInput key input := by
  have long : ¬ frame.length < 16 := by omega
  have payload : (frame.drop 16).length < 2 ^ 64 := by
    rw [List.length_drop]
    omega
  by_cases write : littleEndianValue (frame.take 4) = 0
  · have step : ∀ (before : ProxyNode) (pair' : SocketPair), before.hashMap key = some pair' →
        clientProcessData env key before frame =
          (before.setPair key { pair' with counter := pair'.counter + 1 }).submit env
            (proxyMsg env key pair'.counter .send (frame.drop 16) payload) := by
      intro before pair' there
      simp only [clientProcessData, there, if_neg long, if_pos write, dif_pos payload]
    have map : ((proxy.setPair key { pair with counter := pair.counter + 1 }).submit env
        (proxyMsg env key pair.counter .send (frame.drop 16) payload)).hashMap key =
        some { pair with counter := pair.counter + 1 } := by
      simp only [submit]
      split <;> exact hashMap_setPair_self _
    have kept : ((proxy.setPair key { pair with counter := pair.counter + 1 }).submit env
        (proxyMsg env key pair.counter .send (frame.drop 16) payload)).fault = none := by
      simp only [submit]
      split <;> exact running
    rw [step proxy pair found]
    refine ⟨⟨_, map⟩, kept, fun input => ?_⟩
    rw [withInput_of_pair found, step _ _ (hashMap_setPair_self _), withInput_of_pair map,
      setPair_submit, setPair_setPair, setPair_setPair]
  · -- an unknown message is taken out and ignored
    have step : ∀ (before : ProxyNode) (pair' : SocketPair), before.hashMap key = some pair' →
        clientProcessData env key before frame = before := by
      intro before pair' there
      simp only [clientProcessData, there, if_neg long, if_neg write]
    rw [step proxy pair found]
    refine ⟨⟨pair.counter, found⟩, running, fun input => ?_⟩
    rw [withInput_of_pair found]
    exact step _ _ (hashMap_setPair_self _)

theorem processFrames_sized (passed : List (ProxyEnv × List UInt8))
    (sized : ∀ e ∈ passed, 16 ≤ e.2.length ∧ e.2.length < 2 ^ 64)
    (found : proxy.hashMap key = some pair) (running : proxy.fault = none) :
    (∃ counter, (processFrames key proxy passed).hashMap key =
      some { pair with counter := counter }) ∧
    (processFrames key proxy passed).fault = none ∧
    ∀ input, processFrames key (proxy.withInput key input) passed =
      (processFrames key proxy passed).withInput key input := by
  induction passed generalizing proxy pair with
  | nil => exact ⟨⟨pair.counter, found⟩, running, fun _ => rfl⟩
  | cons e passed ih =>
    obtain ⟨header, fits⟩ := sized e List.mem_cons_self
    obtain ⟨⟨counter, map⟩, kept, commutes⟩ :=
      clientProcessData_sized e.1 e.2 found running header fits
    obtain ⟨⟨counter', map'⟩, kept', commutes'⟩ :=
      ih (fun other member => sized other (List.mem_cons_of_mem _ member)) map kept
    refine ⟨⟨counter', map'⟩, kept', fun input => ?_⟩
    rw [processFrames, List.foldl_cons, commutes]
    exact commutes' input

/-- One call passes on the frames that are whole. -/
theorem clientSideOnRead_passes (env : ProxyEnv) (buffer chunk : List UInt8)
    (frames : List (List UInt8)) (rest : List UInt8) (found : proxy.hashMap key = some pair)
    (running : proxy.fault = none) (client : pair.client = some buffer)
    (read : readFrames 16 clientTotal ((buffer ++ chunk).length + 1) (buffer ++ chunk) =
      some (frames, rest))
    (sized : ∀ frame ∈ frames, 16 ≤ frame.length ∧ frame.length < 2 ^ 64) :
    proxy.clientSideOnRead env key chunk =
      (processFrames key proxy (frames.map fun frame => (env, frame))).withInput key rest := by
  rw [clientSideOnRead, found]
  simp only [client, read]
  have members : ∀ e ∈ frames.map (fun frame => (env, frame)),
      16 ≤ e.2.length ∧ e.2.length < 2 ^ 64 := by
    intro e member
    obtain ⟨frame, listed, rfl⟩ := List.mem_map.mp member
    exact sized frame listed
  obtain ⟨-, -, commutes⟩ := processFrames_sized _ members found running
  rw [← commutes rest, withInput_of_pair found]
  -- no frame stops the loop
  have unstopped : ∀ (frames : List (List UInt8)) (before : ProxyNode) (pair' : SocketPair),
      (∀ frame ∈ frames, 16 ≤ frame.length ∧ frame.length < 2 ^ 64) →
      before.hashMap key = some pair' → before.fault = none →
      frames.foldl (fun proxy frame =>
        if proxy.fault.isSome then proxy else clientProcessData env key proxy frame) before =
      processFrames key before (frames.map fun frame => (env, frame)) := by
    intro frames
    induction frames with
    | nil => exact fun _ _ _ _ _ => rfl
    | cons frame frames ih =>
      intro before pair' sized there running
      obtain ⟨header, fits⟩ := sized frame List.mem_cons_self
      obtain ⟨⟨counter, map⟩, kept, -⟩ :=
        clientProcessData_sized env frame there running header fits
      rw [List.foldl_cons, running, if_neg (by simp)]
      exact ih _ _ (fun other member => sized other (List.mem_cons_of_mem _ member)) map kept
  exact unstopped frames _ _ sized (hashMap_setPair_self _) running

/-- A run of calls passes on the frames that have become whole. -/
theorem clientReads_passes (events : List (ProxyEnv × List UInt8)) (buffer : List UInt8)
    (done : List (List UInt8)) (tail : List UInt8) (found : proxy.hashMap key = some pair)
    (running : proxy.fault = none) (client : pair.client = some buffer)
    (read : readChunks 16 clientTotal buffer (events.map Prod.snd) = some (done, tail))
    (sized : ∀ frame ∈ done, 16 ≤ frame.length ∧ frame.length < 2 ^ 64) :
    ∃ passed, passed.map Prod.snd = done ∧
      clientReads key proxy events = (processFrames key proxy passed).withInput key tail := by
  induction events generalizing proxy pair buffer done with
  | nil =>
    obtain ⟨rfl, rfl⟩ := Prod.mk.inj (Option.some.inj read)
    refine ⟨[], rfl, ?_⟩
    have same : ({ pair with client := some buffer } : SocketPair) = pair := by rw [← client]
    have unchanged : proxy.setPair key pair = proxy := by
      simp only [setPair, ← found, Function.update_eq_self]
    show proxy = proxy.withInput key buffer
    rw [withInput_of_pair found, same, unchanged]
  | cons e events ih =>
    rw [List.map_cons, readChunks] at read
    cases first : readFrames 16 clientTotal ((buffer ++ e.2).length + 1) (buffer ++ e.2) with
    | none =>
      rw [first] at read
      cases read
    | some taken =>
      obtain ⟨frames, rest⟩ := taken
      simp only [first, Option.map_eq_some_iff, Prod.mk.injEq] at read
      obtain ⟨⟨later, left⟩, run, rfl, rfl⟩ := read
      have step := clientSideOnRead_passes e.1 buffer e.2 frames rest found running client first
        (fun frame member => sized frame (List.mem_append_left _ member))
      have members : ∀ passed ∈ frames.map (fun frame => (e.1, frame)),
          16 ≤ passed.2.length ∧ passed.2.length < 2 ^ 64 := by
        intro passed member
        obtain ⟨frame, listed, rfl⟩ := List.mem_map.mp member
        exact sized frame (List.mem_append_left _ listed)
      obtain ⟨⟨counter, map⟩, kept, -⟩ := processFrames_sized _ members found running
      have entry := withInput_of_pair map rest
      have unfaulted : ((processFrames key proxy (frames.map fun frame =>
          (e.1, frame))).withInput key rest).fault = none := by
        rw [entry]
        exact kept
      obtain ⟨passed, order, result⟩ := ih rest later
        (by rw [entry]; exact hashMap_setPair_self _) unfaulted rfl run
        (fun frame member => sized frame (List.mem_append_right _ member))
      have members' : ∀ e ∈ passed, 16 ≤ e.2.length ∧ e.2.length < 2 ^ 64 := by
        intro e member
        apply sized
        rw [← order]
        exact List.mem_append_right _ (List.mem_map_of_mem member)
      refine ⟨frames.map (fun frame => (e.1, frame)) ++ passed, ?_, ?_⟩
      · rw [List.map_append, order, List.map_map]
        simp
      · -- the input of the first call makes no difference to the frames of the later ones
        have commutes := (processFrames_sized passed members' map kept).2.2 rest
        have first : clientReads key proxy (e :: events) =
            clientReads key (proxy.clientSideOnRead e.1 key e.2) events := rfl
        have joined : processFrames key proxy (frames.map (fun frame => (e.1, frame)) ++ passed) =
            processFrames key (processFrames key proxy (frames.map fun frame => (e.1, frame)))
              passed := List.foldl_append
        rw [first, step, result, commutes, withInput_withInput, joined]

end Client

end ProxyNode

/-! ## Any chunks -/

/-- However a stream of frames is cut, both readers pass on, once and in order, the frames that
have arrived whole, and keep the part of the next one. -/
theorem frames_passed (frames : List (List UInt8)) (wire : ∀ frame ∈ frames, WireFrame frame)
    (chunks : List (List UInt8)) (ahead : List UInt8)
    (stream : chunks.flatten ++ ahead = frames.flatten) :
    ∃ (done later : List (List UInt8)) (tail : List UInt8), frames = done ++ later ∧
      chunks.flatten = done.flatten ++ tail ∧
      (∀ frame ∈ later.head?, tail <+: frame ∧ tail.length < frame.length) ∧
      (later = [] → tail = []) ∧
      (∀ (σ : Type) (dispatch : σ → List UInt8 → σ) (s : σ),
        replicaReads dispatch s [] chunks = some (done.foldl dispatch s, tail)) ∧
      ∀ (proxy : ProxyNode) (key : UInt64) (pair : SocketPair)
        (events : List (ProxyEnv × List UInt8)), proxy.fault = none →
        proxy.hashMap key = some pair → pair.client = some [] → events.map Prod.snd = chunks →
        ∃ passed, passed.map Prod.snd = done ∧ ProxyNode.clientReads key proxy events =
          (ProxyNode.processFrames key proxy passed).withInput key tail := by
  have short : ∀ frame ∈ frames.head?, ([] : List UInt8).length < frame.length := by
    intro frame first
    have header := (wire frame (List.mem_of_mem_head? first)).header
    rw [List.length_nil]
    omega
  have arriving : [] ++ chunks.flatten ++ ahead = frames.flatten := by
    rw [List.nil_append]
    exact stream
  obtain ⟨done, tail, run, taken⟩ := readChunks_readOf 16 sysTotal (by omega)
    frames (fun frame member => (wire frame member).isFrame_sys) [] chunks ahead short arriving
  obtain ⟨done', tail', run', taken'⟩ := readChunks_readOf 16 ProxyNode.clientTotal (by omega)
    frames (fun frame member => (wire frame member).isFrame_client) [] chunks ahead short arriving
  -- the two readers have taken the same, since that depends on what has arrived only
  obtain ⟨rfl, rfl⟩ := taken'.unique taken
  obtain ⟨later, split, left, next⟩ := taken
  refine ⟨done', later, tail', split, ?_, ?_, ?_, ?_, ?_⟩
  · rw [split, List.flatten_append, ← left, ← List.append_assoc] at stream
    exact List.append_cancel_right stream
  · intro frame first
    refine ⟨?_, next frame first⟩
    obtain ⟨others, rfl⟩ := List.head?_eq_some_iff.mp first
    rw [List.flatten_cons] at left
    exact List.prefix_of_prefix_length_le ⟨ahead, left⟩ (List.prefix_append _ _)
      (Nat.le_of_lt (next frame first))
  · rintro rfl
    exact (List.append_eq_nil_iff.mp left).1
  · intro σ dispatch s
    rw [replicaReads_eq, readEvents_eq, run, Option.map_some]
  · intro proxy key pair events running found client split'
    rw [← split'] at run'
    refine ProxyNode.clientReads_passes events [] done' tail' found running client run' ?_
    intro frame member
    have wire' := wire frame (by rw [split]; exact List.mem_append_left _ member)
    exact ⟨wire'.header, lt_trans wire'.small (by decide)⟩

/-- A message of one byte, as a client sends it. -/
def oneByte : List UInt8 := headerBytes 0 0 1 ++ [7]

theorem wireFrame_oneByte : WireFrame oneByte := ⟨by decide, by decide, by decide⟩

/-- Two of them cut inside both headers. -/
def cutFrames : List (List UInt8) := [oneByte.take 5, oneByte.drop 5 ++ oneByte.take 3]

theorem cutFrames_passed :
    ∃ done tail, cutFrames.flatten = done.flatten ++ tail ∧
      replicaReads (fun frames frame => frames ++ [frame]) [] [] cutFrames = some (done, tail) := by
  have wire : ∀ frame ∈ [oneByte, oneByte], WireFrame frame := by
    intro frame member
    simp only [List.mem_cons, List.not_mem_nil, or_false, or_self] at member
    rw [member]
    exact wireFrame_oneByte
  obtain ⟨done, later, tail, -, split, -, -, replica, -⟩ :=
    frames_passed [oneByte, oneByte] wire cutFrames (oneByte.drop 3) (by decide)
  refine ⟨done, tail, split, ?_⟩
  have collects : ∀ (frames before : List (List UInt8)),
      frames.foldl (fun frames frame => frames ++ [frame]) before = before ++ frames := by
    intro frames
    induction frames with
    | nil => exact fun before => (List.append_nil before).symm
    | cons frame frames ih => exact fun before => by rw [List.foldl_cons, ih, List.append_assoc]; rfl
  rw [replica, collects, List.nil_append]

/-! ## Progress -/

/-- Behind frames that are whole stands a header whose size, as an int, is between -16 and -1. -/
def SysWraps (input : List UInt8) : Prop :=
  ∃ (frames : List (List UInt8)) (rest : List UInt8), input = frames.flatten ++ rest ∧
    (∀ frame ∈ frames, IsFrame 16 sysTotal frame) ∧ 16 ≤ rest.length ∧
    2 ^ 32 - 16 ≤ headerDataSize (rest.take 16) % 2 ^ 32

/-- Behind frames that are whole stands a header with one of the 16 largest sizes. -/
def ClientWraps (input : List UInt8) : Prop :=
  ∃ (frames : List (List UInt8)) (rest : List UInt8), input = frames.flatten ++ rest ∧
    (∀ frame ∈ frames, IsFrame 16 ProxyNode.clientTotal frame) ∧ 16 ≤ rest.length ∧
    2 ^ 64 - 16 ≤ headerDataSize (rest.take 16)

theorem littleEndianValue_lt (bytes : List UInt8) :
    littleEndianValue bytes < 256 ^ bytes.length := by
  have digits : ∀ digit ∈ bytes.map UInt8.toNat, digit < 256 := by
    intro digit member
    obtain ⟨byte, -, rfl⟩ := List.mem_map.mp member
    exact byte.toNat_lt
  have bound := Nat.ofDigits_lt_base_pow_length (by decide) digits
  rwa [List.length_map] at bound

theorem headerDataSize_lt (header : List UInt8) (length : header.length = 16) :
    headerDataSize header < 2 ^ 64 := by
  have bound := littleEndianValue_lt (header.drop 8)
  rw [List.length_drop, length] at bound
  exact bound

/-- Each iteration of the two loops removes a header at least, and hands on as much, unless the
loop comes to a header whose size wraps; it ends then. -/
theorem readLoops_progress_iff (input : List UInt8) :
    (Progresses 16 sysTotal input ↔ ¬ SysWraps input) ∧
      (Progresses 16 ProxyNode.clientTotal input ↔ ¬ ClientWraps input) := by
  rw [progresses_iff _ _ (by decide), progresses_iff _ _ (by decide), not_iff_not, not_iff_not]
  constructor
  · simp only [Undersized, SysWraps, sysTotal_lt_iff]
  · constructor
    · rintro ⟨frames, rest, stream, whole, headed, under⟩
      have word := headerDataSize_lt (rest.take 16) (by rw [List.length_take]; omega)
      exact ⟨frames, rest, stream, whole, headed, (clientTotal_lt_iff _ word).mp under⟩
    · rintro ⟨frames, rest, stream, whole, headed, wraps⟩
      have word := headerDataSize_lt (rest.take 16) (by rw [List.length_take]; omega)
      exact ⟨frames, rest, stream, whole, headed, (clientTotal_lt_iff _ word).mpr wraps⟩

/-- A client's header with data size `2^64-16`. -/
def endlessClient : List UInt8 := headerBytes 0 0 (2 ^ 64 - 16)

/-- A node's header with data size `2^32-16`, which is -16 as an int. -/
def endlessSys : List UInt8 := headerBytes 2 0 (2 ^ 32 - 16)

/-- A frame of length 0 is taken out of the buffer for ever. -/
private theorem readFrames_stuck {total : List UInt8 → ℕ} {input : List UInt8}
    (headed : 16 ≤ input.length) (empty : total (input.take 16) = 0) (fuel : ℕ) :
    readFrames 16 total fuel input = none := by
  induction fuel with
  | zero => rfl
  | succ fuel ih =>
    rw [readFrames, if_pos headed]
    simp only [empty, Nat.zero_le, if_true, List.drop_zero, ih, Option.map_none]

theorem endless_headers :
    ((∀ fuel, readFrames 16 sysTotal fuel endlessSys = none) ∧
      ¬ Progresses 16 sysTotal endlessSys) ∧
    (∀ fuel, readFrames 16 ProxyNode.clientTotal fuel endlessClient = none) ∧
      ¬ Progresses 16 ProxyNode.clientTotal endlessClient := by
  have sys : ∀ fuel, readFrames 16 sysTotal fuel endlessSys = none :=
    readFrames_stuck (by decide) (by decide)
  have client : ∀ fuel, readFrames 16 ProxyNode.clientTotal fuel endlessClient = none :=
    readFrames_stuck (by decide) (by decide)
  refine ⟨⟨sys, fun progress => ?_⟩, client, fun progress => ?_⟩
  · obtain ⟨read, run⟩ := progress.ends
    rw [sys] at run
    cases run
  · obtain ⟨read, run⟩ := progress.ends
    rw [client] at run
    cases run

end LibeventPaxos
