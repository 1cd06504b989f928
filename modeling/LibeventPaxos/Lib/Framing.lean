import Mathlib.Data.List.Basic
import Mathlib.Tactic.Common

/-!
Frames in a byte stream: each starts with a header from which its total length is read. A reader
keeps what has arrived in a buffer and takes out the frames that are whole.
-/
namespace LibeventPaxos.Lib

variable {α : Type*}

/-- The frames at the front of a buffer and what is left of it; `none` if the loop does not end
within the fuel. -/
def readFrames (header : ℕ) (total : List α → ℕ) : ℕ → List α → Option (List (List α) × List α)
  | 0, _ => none
  | fuel + 1, buffer =>
    if header ≤ buffer.length then
      let length := total (buffer.take header)
      if length ≤ buffer.length then
        (readFrames header total fuel (buffer.drop length)).map fun read =>
          (buffer.take length :: read.1, read.2)
      else some ([], buffer)
    else some ([], buffer)

/-- The frames read while a stream arrives in chunks, and the buffer at its end. -/
def readChunks (header : ℕ) (total : List α → ℕ) :
    List α → List (List α) → Option (List (List α) × List α)
  | buffer, [] => some ([], buffer)
  | buffer, chunk :: chunks =>
    match readFrames header total ((buffer ++ chunk).length + 1) (buffer ++ chunk) with
    | none => none
    | some (frames, rest) => (readChunks header total rest chunks).map fun read =>
        (frames ++ read.1, read.2)

/-- The header of the frame tells its length. -/
structure IsFrame (header : ℕ) (total : List α → ℕ) (frame : List α) : Prop where
  whole : header ≤ frame.length
  total : total (frame.take header) = frame.length

/-- What a reader has taken from a stream of frames: some of them, and the buffer is shorter than
the next one. -/
structure ReadOf (frames : List (List α)) (ahead : List α)
    (read : List (List α)) (rest : List α) : Prop where
  back : ∃ later, frames = read ++ later ∧ rest ++ ahead = later.flatten ∧
    ∀ frame ∈ later.head?, rest.length < frame.length

/-- A reader that has taken less has a whole frame in its buffer. -/
private theorem ReadOf.not_behind {ahead rest rest' : List α} {frame : List α}
    {mid later' : List (List α)} (left : rest ++ ahead = (frame :: mid ++ later').flatten)
    (left' : rest' ++ ahead = later'.flatten) : ¬ rest.length < frame.length := by
  have lengths := congrArg List.length left
  have lengths' := congrArg List.length left'
  rw [List.flatten_append, List.flatten_cons] at lengths
  simp only [List.length_append] at lengths lengths'
  omega

/-- What the reader has taken is determined by what has arrived. -/
theorem ReadOf.unique {frames read read' : List (List α)} {ahead rest rest' : List α}
    (first : ReadOf frames ahead read rest) (second : ReadOf frames ahead read' rest') :
    read = read' ∧ rest = rest' := by
  obtain ⟨later, split, left, next⟩ := first
  obtain ⟨later', split', left', next'⟩ := second
  rcases List.append_eq_append_iff.mp (split.symm.trans split') with
    ⟨mid, more, rfl⟩ | ⟨mid, more, rfl⟩
  · cases mid with
    | nil => exact ⟨by rw [more, List.append_nil], List.append_cancel_right (left.trans left'.symm)⟩
    | cons frame mid => exact absurd (next frame rfl) (ReadOf.not_behind left left')
  · cases mid with
    | nil => exact ⟨by rw [more, List.append_nil], List.append_cancel_right (left.trans left'.symm)⟩
    | cons frame mid => exact absurd (next' frame rfl) (ReadOf.not_behind left' left)

/-- A buffer that is shorter than the frame it begins with is left alone. -/
theorem readFrames_short (header : ℕ) (total : List α → ℕ) (frame buffer ahead later : List α)
    (fuel : ℕ) (isFrame : IsFrame header total frame)
    (stream : buffer ++ ahead = frame ++ later) (short : buffer.length < frame.length) :
    readFrames header total (fuel + 1) buffer = some ([], buffer) := by
  rw [readFrames]
  by_cases headed : header ≤ buffer.length
  · have front : buffer.take header = frame.take header := by
      have takes := congrArg (List.take header) stream
      rwa [List.take_append_of_le_length headed,
        List.take_append_of_le_length isFrame.whole] at takes
    have length : ¬ total (buffer.take header) ≤ buffer.length := by
      rw [front, isFrame.total]
      omega
    rw [if_pos headed]
    simp only [if_neg length]
  · rw [if_neg headed]

/-- A whole frame is taken out of the buffer. -/
theorem readFrames_whole (header : ℕ) (total : List α → ℕ) (frame buffer ahead later : List α)
    (fuel : ℕ) (isFrame : IsFrame header total frame)
    (stream : buffer ++ ahead = frame ++ later) (whole : frame.length ≤ buffer.length) :
    buffer.drop frame.length ++ ahead = later ∧
      readFrames header total (fuel + 1) buffer =
        (readFrames header total fuel (buffer.drop frame.length)).map fun read =>
          (frame :: read.1, read.2) := by
  have headed : header ≤ buffer.length := Nat.le_trans isFrame.whole whole
  have front : buffer.take header = frame.take header := by
    have takes := congrArg (List.take header) stream
    rwa [List.take_append_of_le_length headed,
      List.take_append_of_le_length isFrame.whole] at takes
  have first : buffer.take frame.length = frame := by
    have takes := congrArg (List.take frame.length) stream
    rwa [List.take_append_of_le_length whole, List.take_left] at takes
  constructor
  · have drops := congrArg (List.drop frame.length) stream
    rwa [List.drop_append_of_le_length whole, List.drop_left] at drops
  · rw [readFrames, if_pos headed]
    simp only [front, isFrame.total, if_pos whole, first]

/-- From the front of a stream of frames the reader takes the frames that are whole. -/
theorem readFrames_readOf (header : ℕ) (total : List α → ℕ) (positive : 0 < header)
    (frames : List (List α)) (isFrame : ∀ frame ∈ frames, IsFrame header total frame)
    (buffer ahead : List α) (fuel : ℕ) (enough : buffer.length < fuel)
    (stream : buffer ++ ahead = frames.flatten) :
    ∃ read rest, readFrames header total fuel buffer = some (read, rest) ∧
      ReadOf frames ahead read rest := by
  obtain ⟨fuel, rfl⟩ : ∃ more, fuel = more + 1 := ⟨fuel - 1, by omega⟩
  induction frames generalizing buffer fuel with
  | nil =>
    rw [List.flatten_nil, List.append_eq_nil_iff] at stream
    obtain ⟨rfl, rfl⟩ := stream
    refine ⟨[], [], ?_, ⟨[], rfl, rfl, by simp⟩⟩
    rw [readFrames, if_neg (by rw [List.length_nil]; omega)]
  | cons frame frames ih =>
    have first := isFrame frame List.mem_cons_self
    rw [List.flatten_cons] at stream
    rcases Nat.lt_or_ge buffer.length frame.length with short | whole
    · refine ⟨[], buffer, readFrames_short header total frame buffer ahead _ fuel first stream short,
        ⟨frame :: frames, rfl, stream, ?_⟩⟩
      intro next head
      obtain rfl := Option.some.inj head
      exact short
    · obtain ⟨stream', step⟩ :=
        readFrames_whole header total frame buffer ahead _ fuel first stream whole
      have positive' := first.whole
      obtain ⟨fuel, rfl⟩ : ∃ more, fuel = more + 1 := ⟨fuel - 1, by omega⟩
      obtain ⟨read, rest, run, later, split, left, next⟩ := ih
        (fun other member => isFrame other (List.mem_cons_of_mem _ member))
        (buffer.drop frame.length) stream' fuel (by rw [List.length_drop]; omega)
      refine ⟨frame :: read, rest, ?_, ⟨later, ?_, left, next⟩⟩
      · rw [step, run, Option.map_some]
      · rw [split, List.cons_append]

/-- However a stream of frames is cut into chunks, the reader takes out just the frames. -/
theorem readChunks_frames (header : ℕ) (total : List α → ℕ) (positive : 0 < header)
    (frames : List (List α)) (isFrame : ∀ frame ∈ frames, IsFrame header total frame)
    (buffer : List α) (chunks : List (List α))
    (short : ∀ frame ∈ frames.head?, buffer.length < frame.length)
    (stream : buffer ++ chunks.flatten = frames.flatten) :
    readChunks header total buffer chunks = some (frames, []) := by
  induction chunks generalizing buffer frames with
  | nil =>
    rw [List.flatten_nil, List.append_nil] at stream
    cases frames with
    | nil =>
      rw [stream]
      rfl
    | cons frame frames =>
      -- the buffer would have to be as long as the frame it is shorter than
      have less := short frame rfl
      rw [stream, List.flatten_cons, List.length_append] at less
      omega
  | cons chunk chunks ih =>
    rw [List.flatten_cons, ← List.append_assoc] at stream
    obtain ⟨read, rest, run, later, split, left, next⟩ := readFrames_readOf header total positive
      frames isFrame (buffer ++ chunk) chunks.flatten ((buffer ++ chunk).length + 1)
      (Nat.lt_succ_self _) stream
    have remaining := ih later
      (fun frame member => isFrame frame (by rw [split]; exact List.mem_append_right _ member))
      rest next left
    rw [readChunks, run]
    simp only [remaining, Option.map_some, split]

/-- What the reader has taken after some of the chunks of a stream of frames. -/
theorem readChunks_readOf (header : ℕ) (total : List α → ℕ) (positive : 0 < header)
    (frames : List (List α)) (isFrame : ∀ frame ∈ frames, IsFrame header total frame)
    (buffer : List α) (chunks : List (List α)) (ahead : List α)
    (short : ∀ frame ∈ frames.head?, buffer.length < frame.length)
    (stream : buffer ++ chunks.flatten ++ ahead = frames.flatten) :
    ∃ read rest, readChunks header total buffer chunks = some (read, rest) ∧
      ReadOf frames ahead read rest := by
  induction chunks generalizing buffer frames with
  | nil =>
    rw [List.flatten_nil, List.append_nil] at stream
    exact ⟨[], buffer, rfl, frames, rfl, stream, short⟩
  | cons chunk chunks ih =>
    rw [List.flatten_cons, ← List.append_assoc, List.append_assoc] at stream
    obtain ⟨read, rest, run, later, split, left, next⟩ := readFrames_readOf header total positive
      frames isFrame (buffer ++ chunk) (chunks.flatten ++ ahead) ((buffer ++ chunk).length + 1)
      (Nat.lt_succ_self _) stream
    obtain ⟨read', rest', run', later', split', left', next'⟩ := ih later
      (fun frame member => isFrame frame (by rw [split]; exact List.mem_append_right _ member))
      rest next (by rw [List.append_assoc, left])
    refine ⟨read ++ read', rest', ?_, later', ?_, left', next'⟩
    · rw [readChunks, run]
      simp only [run', Option.map_some]
    · rw [split, split', List.append_assoc]

/-! ## The loop with its callback -/

/-- The loop of a reader whose callback takes the frame out of the buffer; `none` if it does not
end within the fuel. -/
def readLoop {σ : Type*} (header : ℕ) (total : List α → ℕ) (callback : σ → List α → σ) :
    ℕ → σ → List α → Option (σ × List α)
  | 0, _, _ => none
  | fuel + 1, s, buffer =>
    if header ≤ buffer.length then
      let length := total (buffer.take header)
      if length ≤ buffer.length then
        readLoop header total callback fuel (callback s (buffer.take length)) (buffer.drop length)
      else some (s, buffer)
    else some (s, buffer)

/-- The callback gets the frames at the front of the buffer, in their order. -/
theorem readLoop_eq {σ : Type*} (header : ℕ) (total : List α → ℕ) (callback : σ → List α → σ)
    (fuel : ℕ) (s : σ) (buffer : List α) :
    readLoop header total callback fuel s buffer =
      (readFrames header total fuel buffer).map fun read => (read.1.foldl callback s, read.2) := by
  induction fuel generalizing s buffer with
  | zero => rfl
  | succ fuel ih =>
    rw [readLoop, readFrames]
    split
    next headed =>
      simp only
      split
      next whole =>
        rw [ih, Option.map_map]
        rfl
      next part => rfl
    next short => rfl

/-- One read after the other, each with what has arrived since. -/
def readEvents {σ : Type*} (header : ℕ) (total : List α → ℕ) (callback : σ → List α → σ) :
    σ → List α → List (List α) → Option (σ × List α)
  | s, buffer, [] => some (s, buffer)
  | s, buffer, chunk :: chunks =>
    match readLoop header total callback ((buffer ++ chunk).length + 1) s (buffer ++ chunk) with
    | none => none
    | some (s', rest) => readEvents header total callback s' rest chunks

theorem readEvents_eq {σ : Type*} (header : ℕ) (total : List α → ℕ) (callback : σ → List α → σ)
    (s : σ) (buffer : List α) (chunks : List (List α)) :
    readEvents header total callback s buffer chunks =
      (readChunks header total buffer chunks).map fun read =>
        (read.1.foldl callback s, read.2) := by
  induction chunks generalizing s buffer with
  | nil => rfl
  | cons chunk chunks ih =>
    rw [readEvents, readChunks, readLoop_eq]
    cases run : readFrames header total ((buffer ++ chunk).length + 1) (buffer ++ chunk) with
    | none => rfl
    | some read =>
      simp only [Option.map_some, ih, Option.map_map]
      congr 1
      funext later
      simp only [Function.comp_apply, List.foldl_append]

/-! ## Progress of the loop -/

/-- The buffers the loop finds when it tests its condition. -/
inductive AtHead (header : ℕ) (total : List α → ℕ) (input : List α) : List α → Prop
  | start : AtHead header total input input
  | again (buffer : List α) (earlier : AtHead header total input buffer)
      (headed : header ≤ buffer.length) (whole : total (buffer.take header) ≤ buffer.length) :
      AtHead header total input (buffer.drop (total (buffer.take header)))

/-- Every iteration that does not leave the loop hands on at least a header and removes it, and
the loop ends. -/
structure Progresses (header : ℕ) (total : List α → ℕ) (input : List α) : Prop where
  iteration : ∀ buffer, AtHead header total input buffer → header ≤ buffer.length →
    total (buffer.take header) ≤ buffer.length →
    header ≤ (buffer.take (total (buffer.take header))).length ∧
      (buffer.drop (total (buffer.take header))).length + header ≤ buffer.length
  ends : ∃ read, readFrames header total (input.length + 1) input = some read

/-- Behind some frames that are whole the input has a header of a frame shorter than that. -/
def Undersized (header : ℕ) (total : List α → ℕ) (input : List α) : Prop :=
  ∃ (frames : List (List α)) (rest : List α), input = frames.flatten ++ rest ∧
    (∀ frame ∈ frames, IsFrame header total frame) ∧ header ≤ rest.length ∧
      total (rest.take header) < header

/-- The loop ends on any input in which every header it comes to is of a frame that holds it. -/
theorem readFrames_ends (header : ℕ) (total : List α → ℕ) (positive : 0 < header) (fuel : ℕ)
    (input : List α) (enough : input.length < fuel)
    (sized : ∀ buffer, AtHead header total input buffer → header ≤ buffer.length →
      header ≤ total (buffer.take header)) :
    ∃ read, readFrames header total fuel input = some read := by
  induction fuel generalizing input with
  | zero => omega
  | succ fuel ih =>
    rw [readFrames]
    split
    next headed =>
      simp only
      split
      next whole =>
        have least := sized input .start headed
        obtain ⟨read, run⟩ := ih (input.drop (total (input.take header)))
          (by rw [List.length_drop]; omega)
          (fun buffer reached => sized buffer (by
            induction reached with
            | start => exact .again input .start headed whole
            | again buffer earlier headed whole ih => exact .again buffer ih headed whole))
        exact ⟨_, by rw [run, Option.map_some]⟩
      next part => exact ⟨_, rfl⟩
    next short => exact ⟨_, rfl⟩

/-- What is in front of a buffer the loop comes to are whole frames, or there is an undersized one
among them. -/
theorem AtHead.split {header : ℕ} {total : List α → ℕ} {input buffer : List α}
    (reached : AtHead header total input buffer) (sized : ¬ Undersized header total input) :
    ∃ frames : List (List α), input = frames.flatten ++ buffer ∧
      ∀ frame ∈ frames, IsFrame header total frame := by
  induction reached with
  | start => exact ⟨[], rfl, by simp⟩
  | again buffer earlier headed whole ih =>
    obtain ⟨frames, stream, isFrame⟩ := ih
    have least : header ≤ total (buffer.take header) := by
      by_contra under
      exact sized ⟨frames, buffer, stream, isFrame, headed, by omega⟩
    refine ⟨frames ++ [buffer.take (total (buffer.take header))], ?_, ?_⟩
    · rw [List.flatten_append, List.flatten_singleton, List.append_assoc, List.take_append_drop,
        stream]
    · intro frame member
      rcases List.mem_append.mp member with earlier | last
      · exact isFrame frame earlier
      · rw [List.mem_singleton.mp last]
        constructor
        · rw [List.length_take]
          omega
        · rw [List.take_take, Nat.min_eq_left least, List.length_take, Nat.min_eq_left whole]

/-- Whole frames bring the loop to what is behind them. -/
theorem atHead_flatten {header : ℕ} {total : List α → ℕ} {input rest : List α}
    (frames : List (List α)) (isFrame : ∀ frame ∈ frames, IsFrame header total frame)
    (reached : AtHead header total input (frames.flatten ++ rest)) :
    AtHead header total input rest := by
  induction frames with
  | nil => exact reached
  | cons frame frames ih =>
    have first := isFrame frame List.mem_cons_self
    rw [List.flatten_cons, List.append_assoc] at reached
    have front : (frame ++ (frames.flatten ++ rest)).take header = frame.take header :=
      List.take_append_of_le_length first.whole
    have next := AtHead.again _ reached
      (by rw [List.length_append]; exact Nat.le_add_right_of_le first.whole)
      (by rw [front, first.total, List.length_append]; omega)
    rw [front, first.total, List.drop_left] at next
    exact ih (fun other member => isFrame other (List.mem_cons_of_mem _ member)) next

theorem progresses_iff (header : ℕ) (total : List α → ℕ) (positive : 0 < header)
    (input : List α) : Progresses header total input ↔ ¬ Undersized header total input := by
  constructor
  · rintro progress ⟨frames, rest, rfl, isFrame, headed, under⟩
    have reached : AtHead header total (frames.flatten ++ rest) rest :=
      atHead_flatten frames isFrame .start
    have step := (progress.iteration rest reached headed (by omega)).1
    rw [List.length_take] at step
    omega
  · intro sized
    have least : ∀ buffer, AtHead header total input buffer → header ≤ buffer.length →
        header ≤ total (buffer.take header) := by
      intro buffer reached headed
      obtain ⟨frames, stream, isFrame⟩ := reached.split sized
      by_contra under
      exact sized ⟨frames, buffer, stream, isFrame, headed, by omega⟩
    constructor
    · intro buffer reached headed whole
      have large := least buffer reached headed
      rw [List.length_take, List.length_drop]
      omega
    · exact readFrames_ends header total positive _ input (Nat.lt_succ_self _) least

end LibeventPaxos.Lib
