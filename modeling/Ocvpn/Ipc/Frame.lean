import Ocvpn.Model.Basic

/-!
# Frames of the local connection

`read_frame` and `write_frame` of `crates/model/src/ipc.rs`: a frame is the length of its payload
in four bytes, the highest first, and the payload, a JSON text of at most `maxFrameBytes` bytes.

`serde_json` is a parameter, one `Serde` for each type of values: the chunks in which a value is
written, and the parser.  A connection is a list of bytes; its sending half may break after any
number of them.

## Main results

* `toWriter_eq` : in whatever chunks a text comes, it is taken exactly when it fits a frame.
* `framing_lossless` : whatever is written in turn is read in the same order, less what does not
  fit, and a reader is never left inside a frame.
-/

namespace Ocvpn.Ipc

/-- `MAX_FRAME_BYTES`. -/
def maxFrameBytes : ℕ := 1024 * 1024

def protocolError (message : String) : Error := .new .protocolViolation message

/-- `serde_json` at one type. -/
structure Serde where
  /-- The values. -/
  Value : Type
  /-- What `to_writer` hands to the writer, call by call. -/
  chunks : Value → List (List UInt8)
  /-- `from_slice`. -/
  fromSlice : List UInt8 → Option Value
  /-- An empty text holds no value. -/
  fromSlice_nil : fromSlice [] = none

namespace Serde

variable (s : Serde)

/-- The JSON text of a value. -/
def text (value : s.Value) : List UInt8 := (s.chunks value).flatten

/-- The text of the value is parsed back to it. -/
def RoundTrips (value : s.Value) : Prop := s.fromSlice (s.text value) = some value

variable {s}

theorem RoundTrips.length_pos {value : s.Value} (h : s.RoundTrips value) :
    0 < (s.text value).length := by
  rw [List.length_pos_iff]
  intro hnil
  rw [RoundTrips, hnil, s.fromSlice_nil] at h
  cases h

end Serde

/-! ### The bounded writer -/

namespace BoundedWriter

/-- `write`, on the bytes the writer holds. -/
def write (held bytes : List UInt8) : Option (List UInt8) :=
  if bytes.length > maxFrameBytes - held.length then none else some (held ++ bytes)

/-- `write_all` of the standard library: it does not call `write` for no bytes, and `write` takes
all it is given. -/
def writeAll (held bytes : List UInt8) : Option (List UInt8) :=
  if bytes.isEmpty then some held else write held bytes

theorem writeAll_eq {held : List UInt8} (h : held.length ≤ maxFrameBytes) (bytes : List UInt8) :
    writeAll held bytes =
      if held.length + bytes.length ≤ maxFrameBytes then some (held ++ bytes) else none := by
  cases bytes with
  | nil => simp [writeAll, h]
  | cons b bytes =>
    rw [writeAll, if_neg (by simp), write]
    by_cases hfits : held.length + (b :: bytes).length ≤ maxFrameBytes
    · rw [if_neg (by omega), if_pos hfits]
    · rw [if_pos (by omega), if_neg hfits]

end BoundedWriter

/-- `serde_json::to_writer` into a `BoundedWriter`. -/
def toWriter (held : List UInt8) (chunks : List (List UInt8)) : Option (List UInt8) :=
  chunks.foldlM BoundedWriter.writeAll held

/-- The chunks do not matter: a text is taken when it fits, and nothing of it is kept when not. -/
theorem toWriter_eq {held : List UInt8} (h : held.length ≤ maxFrameBytes)
    (chunks : List (List UInt8)) :
    toWriter held chunks =
      if held.length + chunks.flatten.length ≤ maxFrameBytes then some (held ++ chunks.flatten)
      else none := by
  induction chunks generalizing held with
  | nil => simp [toWriter, h]
  | cons chunk chunks ih =>
    rw [toWriter, List.foldlM_cons, BoundedWriter.writeAll_eq h]
    by_cases hfits : held.length + chunk.length ≤ maxFrameBytes
    · rw [if_pos hfits]
      change toWriter (held ++ chunk) chunks = _
      rw [ih (by rw [List.length_append]; exact hfits)]
      simp only [List.length_append, List.flatten_cons, List.append_assoc, Nat.add_assoc]
    · rw [if_neg hfits, if_neg (by rw [List.flatten_cons, List.length_append]; omega)]
      rfl

/-! ### Headers -/

/-- The four bytes of a length, the highest first. -/
def header (n : ℕ) : List UInt8 :=
  [.ofNat (n / 2 ^ 24), .ofNat (n / 2 ^ 16), .ofNat (n / 2 ^ 8), .ofNat n]

/-- The number bytes stand for, the highest first. -/
def number (bytes : List UInt8) : ℕ := bytes.foldl (fun n b => n * 2 ^ 8 + b.toNat) 0

@[simp] theorem header_length (n : ℕ) : (header n).length = 4 := rfl

theorem number_header {n : ℕ} (h : n < 2 ^ 32) : number (header n) = n := by
  simp only [number, header, List.foldl_cons, List.foldl_nil, UInt8.toNat_ofNat']
  omega

/-! ### The connection -/

/-- The sending half of a connection. -/
structure Sink where
  /-- What has been sent. -/
  sent : List UInt8 := []
  /-- How many more bytes are taken before the connection breaks, if it does. -/
  room : Option ℕ := none

namespace Sink

/-- `write_all`: part of the bytes may be on the way when it fails. -/
def writeAll (w : Sink) (bytes : List UInt8) : Bool × Sink :=
  match w.room with
  | none => (true, { w with sent := w.sent ++ bytes })
  | some n =>
    if bytes.length ≤ n then (true, { sent := w.sent ++ bytes, room := some (n - bytes.length) })
    else (false, { sent := w.sent ++ bytes.take n, room := some 0 })

/-- `flush`: a connection that takes no more bytes fails. -/
def flush (w : Sink) : Bool := w.room ≠ some 0

end Sink

/-- `write_frame`. -/
def writeFrame (s : Serde) (value : s.Value) (w : Sink) : Run Unit × Sink :=
  match toWriter [] (s.chunks value) with
  | none => (Exec.fail (protocolError "IPC payload cannot be encoded within the frame limit"), w)
  | some bytes =>
    match w.writeAll (header bytes.length) with
    | (false, w) => (Exec.fail (protocolError "Cannot write IPC header"), w)
    | (true, w) =>
      match w.writeAll bytes with
      | (false, w) => (Exec.fail (protocolError "Cannot write IPC payload"), w)
      | (true, w) =>
        (if w.flush then .ok () else Exec.fail (protocolError "Cannot flush IPC payload"), w)

/-- `read_exact` on what is still to come: the bytes, and what is left. -/
def readExact (n : ℕ) (stream : List UInt8) : Option (List UInt8) × List UInt8 :=
  if n ≤ stream.length then (some (stream.take n), stream.drop n) else (none, [])

/-- `read_frame`: the result, and what is left of the stream. -/
def readFrame (s : Serde) (stream : List UInt8) : Run s.Value × List UInt8 :=
  match readExact 4 stream with
  | (none, rest) => (Exec.fail (protocolError "Missing or truncated IPC frame header"), rest)
  | (some bytes, rest) =>
    let length := number bytes
    if length = 0 ∨ length > maxFrameBytes then
      (Exec.fail (protocolError "IPC frame size is outside the permitted range"), rest)
    else
      match readExact length rest with
      | (none, rest) => (Exec.fail (protocolError "Truncated IPC frame payload"), rest)
      | (some bytes, rest) =>
        match s.fromSlice bytes with
        | none => (Exec.fail (protocolError "Invalid IPC payload"), rest)
        | some value => (.ok value, rest)

/-! ### What one frame does -/

/-- The bytes of a frame. -/
def frame (payload : List UInt8) : List UInt8 := header payload.length ++ payload

/-- The value fits a frame. -/
def Fits (s : Serde) (value : s.Value) : Prop := (s.text value).length ≤ maxFrameBytes

instance (s : Serde) (value : s.Value) : Decidable (Fits s value) :=
  inferInstanceAs (Decidable (_ ≤ _))

variable {s : Serde} {value : s.Value}

theorem toWriter_text (s : Serde) (value : s.Value) :
    toWriter [] (s.chunks value) = if Fits s value then some (s.text value) else none := by
  rw [toWriter_eq (Nat.zero_le _)]
  simp [Fits, Serde.text]

/-- A value that does not fit leaves no trace. -/
theorem writeFrame_oversize (h : ¬Fits s value) (w : Sink) :
    writeFrame s value w =
      (Exec.fail (protocolError "IPC payload cannot be encoded within the frame limit"), w) := by
  rw [writeFrame, toWriter_text, if_neg h]

/-- On a connection that does not break, a value that fits is sent as one frame. -/
theorem writeFrame_working {w : Sink} (hw : w.room = none) (h : Fits s value) :
    writeFrame s value w = (.ok (), { w with sent := w.sent ++ frame (s.text value) }) := by
  rw [writeFrame, toWriter_text, if_pos h]
  simp only [Sink.writeAll, hw, Sink.flush, frame, List.append_assoc]
  simp

/-- Either all bytes are sent, or the connection has broken after some of them. -/
theorem Sink.writeAll_cases (w : Sink) (bytes : List UInt8) :
    (∃ room, w.writeAll bytes = (true, { sent := w.sent ++ bytes, room })) ∨
    ∃ n, w.writeAll bytes = (false, { sent := w.sent ++ bytes.take n, room := some 0 }) := by
  cases hroom : w.room with
  | none => exact .inl ⟨none, by simp [Sink.writeAll, hroom]⟩
  | some n =>
    by_cases hn : bytes.length ≤ n
    · exact .inl ⟨some (n - bytes.length), by simp [Sink.writeAll, hroom, hn]⟩
    · exact .inr ⟨n, by simp [Sink.writeAll, hroom, hn]⟩

/-- What one call of `write_frame` may do: send the frame, send nothing, or lose the connection
inside the frame. -/
theorem writeFrame_cases (s : Serde) (value : s.Value) (w : Sink) :
    (Fits s value ∧
      ∃ room, writeFrame s value w = (.ok (), { sent := w.sent ++ frame (s.text value), room })) ∨
    (∃ e, writeFrame s value w = (Exec.fail e, w)) ∨
    Fits s value ∧ ∃ e part, part <+: frame (s.text value) ∧
      writeFrame s value w = (Exec.fail e, { sent := w.sent ++ part, room := some 0 }) := by
  by_cases h : Fits s value
  swap
  · exact .inr (.inl ⟨_, writeFrame_oversize h w⟩)
  rw [writeFrame, toWriter_text, if_pos h]
  obtain ⟨room, hheader⟩ | ⟨n, hheader⟩ := w.writeAll_cases (header (s.text value).length)
  swap
  · exact .inr (.inr ⟨h, _, (header (s.text value).length).take n,
      (List.take_prefix ..).trans (List.prefix_append ..), by simp only [hheader]; rfl⟩)
  simp only [hheader]
  obtain ⟨room', hpayload⟩ | ⟨n, hpayload⟩ :=
    Sink.writeAll_cases ⟨w.sent ++ header (s.text value).length, room⟩ (s.text value)
  swap
  · refine .inr (.inr ⟨h, protocolError "Cannot write IPC payload",
      header (s.text value).length ++ (s.text value).take n,
      (List.prefix_append_right_inj _).2 (List.take_prefix ..), ?_⟩)
    simp only [hpayload, List.append_assoc]
  simp only [hpayload, List.append_assoc]
  by_cases hflush : room' = some 0
  · -- the whole frame is out, but the connection took its last byte
    subst hflush
    exact .inr (.inr ⟨h, _, frame (s.text value), List.prefix_refl _, rfl⟩)
  · exact .inl ⟨h, room', by simp [Sink.flush, hflush, frame]⟩

/-- Nothing is sent over a connection that has broken. -/
theorem writeFrame_broken {w : Sink} (hw : w.room = some 0) (s : Serde) (value : s.Value) :
    ∃ e, writeFrame s value w = (Exec.fail e, w) := by
  by_cases h : Fits s value
  · refine ⟨protocolError "Cannot write IPC header", ?_⟩
    obtain ⟨sent, room⟩ := w
    cases hw
    rw [writeFrame, toWriter_text, if_pos h]
    simp [Sink.writeAll]
  · exact ⟨_, writeFrame_oversize h w⟩

theorem readExact_append (bytes rest : List UInt8) :
    readExact bytes.length (bytes ++ rest) = (some bytes, rest) := by
  simp [readExact]

/-- A frame is read back, and the reader stands behind it. -/
theorem readFrame_frame (h : Fits s value) (hs : s.RoundTrips value) (rest : List UInt8) :
    readFrame s (frame (s.text value) ++ rest) = (.ok value, rest) := by
  have hpos := hs.length_pos
  have hlt : (s.text value).length < 2 ^ 32 := Nat.lt_of_le_of_lt h (by decide)
  have hheader : readExact 4 (frame (s.text value) ++ rest) =
      (some (header (s.text value).length), s.text value ++ rest) := by
    rw [frame, List.append_assoc]
    exact readExact_append (header (s.text value).length) _
  have hrange : ¬((s.text value).length = 0 ∨ (s.text value).length > maxFrameBytes) := by
    have : (s.text value).length ≤ maxFrameBytes := h
    omega
  simp only [readFrame, hheader, number_header hlt, if_neg hrange,
    readExact_append]
  rw [hs]

/-- What `read_frame` makes of any bytes: an incomplete frame, or one of no or too many bytes, is
refused; of a complete one exactly the header and the payload are consumed. -/
theorem readFrame_spec (s : Serde) (stream : List UInt8) :
    let n := number (stream.take 4)
    (stream.length < 4 ∨ n = 0 ∨ maxFrameBytes < n ∨ stream.length < 4 + n →
      ∃ e, (readFrame s stream).1 = Exec.fail e) ∧
    (4 ≤ stream.length → 0 < n → n ≤ maxFrameBytes → 4 + n ≤ stream.length →
      readFrame s stream =
        ((s.fromSlice ((stream.drop 4).take n)).elim
          (Exec.fail (protocolError "Invalid IPC payload")) .ok, stream.drop (4 + n))) := by
  intro n
  by_cases hheader : 4 ≤ stream.length
  swap
  · refine ⟨fun _ => ⟨protocolError "Missing or truncated IPC frame header", ?_⟩,
      fun h => absurd h hheader⟩
    rw [readFrame, readExact, if_neg hheader]
  have hread : readExact 4 stream = (some (stream.take 4), stream.drop 4) := by
    rw [readExact, if_pos hheader]
  simp only [readFrame, hread]
  by_cases hrange : n = 0 ∨ n > maxFrameBytes
  · rw [if_pos hrange]
    refine ⟨fun _ => ⟨_, rfl⟩, fun _ hpos hle => ?_⟩
    omega
  rw [if_neg hrange]
  by_cases hpayload : n ≤ (stream.drop 4).length
  · rw [readExact, if_pos hpayload, List.drop_drop]
    rw [List.length_drop] at hpayload
    refine ⟨fun h => ?_, fun _ _ _ _ => ?_⟩
    · omega
    · cases hparse : s.fromSlice ((stream.drop 4).take n) <;> simp only [n] at hparse ⊢ <;>
        simp only [hparse] <;> rfl
  · rw [readExact, if_neg hpayload]
    rw [List.length_drop] at hpayload
    refine ⟨fun _ => ⟨_, rfl⟩, fun _ _ _ hle => ?_⟩
    omega

/-! ### Sequences of frames -/

/-- A value of some type. -/
structure Item where
  serde : Serde
  value : serde.Value

/-- `write_frame` of one value after the other: the results, and the connection. -/
def writeFrames : List Item → Sink → List (Run Unit) × Sink
  | [], w => ([], w)
  | i :: items, w =>
    let (result, w) := writeFrame i.serde i.value w
    let (results, w) := writeFrames items w
    (result :: results, w)

/-- `read_frame` at one type after the other: the results, and what is left of the stream. -/
def readFrames : List Serde → List UInt8 → List (Σ s : Serde, Run s.Value) × List UInt8
  | [], stream => ([], stream)
  | s :: serdes, stream =>
    let (result, stream) := readFrame s stream
    let (results, stream) := readFrames serdes stream
    (⟨s, result⟩ :: results, stream)

/-- The values whose `write_frame` returned `Ok`. -/
def written : List Item → List (Run Unit) → List Item
  | i :: items, .ok () :: results => i :: written items results
  | _ :: items, .error _ :: results => written items results
  | _, _ => []

/-- What a reader gets of the values. -/
def received (items : List Item) : List (Σ s : Serde, Run s.Value) :=
  items.map fun i => ⟨i.serde, .ok i.value⟩

/-- The frames of the values. -/
def frames (items : List Item) : List UInt8 :=
  (items.map fun i => frame (i.serde.text i.value)).flatten

/-- Frames are read in the order they were sent in. -/
theorem readFrames_frames (items : List Item)
    (h : ∀ i ∈ items, Fits i.serde i.value ∧ i.serde.RoundTrips i.value) (rest : List UInt8) :
    readFrames (items.map Item.serde) (frames items ++ rest) = (received items, rest) := by
  induction items with
  | nil => rfl
  | cons i items ih =>
    obtain ⟨hfits, htrips⟩ := h i List.mem_cons_self
    have hread := readFrame_frame hfits htrips (frames items ++ rest)
    rw [← List.append_assoc] at hread
    change readFrames (i.serde :: items.map Item.serde)
      ((frame (i.serde.text i.value) ++ frames items) ++ rest) = _
    simp only [readFrames, hread, ih fun j hj => h j (List.mem_cons_of_mem _ hj)]
    rfl

theorem writeFrames_broken {w : Sink} (hw : w.room = some 0) (items : List Item) :
    (writeFrames items w).2 = w ∧ written items (writeFrames items w).1 = [] := by
  induction items with
  | nil => exact ⟨rfl, rfl⟩
  | cons i items ih =>
    obtain ⟨e, he⟩ := writeFrame_broken hw i.serde i.value
    simp only [writeFrames, he]
    exact ih

/-- Of what is written, the connection carries the frames of the values whose `write_frame` returned
`Ok`, and after them at most the beginning of a frame in which it broke. -/
theorem writeFrames_sent (items : List Item) (w : Sink) :
    (∃ tail, (writeFrames items w).2.sent =
      w.sent ++ frames (written items (writeFrames items w).1) ++ tail) ∧
    ∀ i ∈ written items (writeFrames items w).1, i ∈ items ∧ Fits i.serde i.value := by
  induction items generalizing w with
  | nil => exact ⟨⟨[], by simp [writeFrames, written, frames]⟩, by simp [written]⟩
  | cons i items ih =>
    obtain ⟨hfits, room, hi⟩ | ⟨e, hi⟩ | ⟨-, e, part, -, hi⟩ := writeFrame_cases i.serde i.value w
    · obtain ⟨⟨tail, htail⟩, hwritten⟩ := ih ⟨w.sent ++ frame (i.serde.text i.value), room⟩
      simp only [writeFrames, hi, written]
      refine ⟨⟨tail, ?_⟩, fun j hj => ?_⟩
      · rw [htail]
        simp [frames]
      · obtain rfl | hj := List.mem_cons.1 hj
        · exact ⟨List.mem_cons_self, hfits⟩
        · exact ⟨List.mem_cons_of_mem _ (hwritten j hj).1, (hwritten j hj).2⟩
    · obtain ⟨hsent, hwritten⟩ := ih w
      simp only [writeFrames, hi, Exec.fail, written]
      exact ⟨hsent, fun j hj => ⟨List.mem_cons_of_mem _ (hwritten j hj).1, (hwritten j hj).2⟩⟩
    · obtain ⟨hsink, hwritten⟩ :=
        writeFrames_broken (w := ⟨w.sent ++ part, some 0⟩) rfl items
      simp only [writeFrames, hi, Exec.fail, written, hsink, hwritten]
      exact ⟨⟨part, by simp [frames]⟩, by simp⟩

/-- On a connection that does not break the values that fit are sent, and nothing else. -/
theorem writeFrames_working (items : List Item) {w : Sink} (hw : w.room = none) :
    written items (writeFrames items w).1 = items.filter (fun i => Fits i.serde i.value) ∧
    (writeFrames items w).2 =
      { w with sent := w.sent ++ frames (items.filter fun i => Fits i.serde i.value) } := by
  induction items generalizing w with
  | nil => simp [writeFrames, written, frames]
  | cons i items ih =>
    by_cases hfits : Fits i.serde i.value
    · obtain ⟨hwritten, hsink⟩ :=
        ih (w := { w with sent := w.sent ++ frame (i.serde.text i.value) }) hw
      simp only [writeFrames, writeFrame_working hw hfits, written, hwritten, hsink,
        List.filter_cons, hfits, decide_true, if_true]
      simp [frames]
    · obtain ⟨hwritten, hsink⟩ := ih hw
      simp only [writeFrames, writeFrame_oversize hfits, Exec.fail, written, hwritten, hsink,
        List.filter_cons, hfits, decide_false]
      simp

/-- The header of a frame that was sent is one that `read_frame` accepts. -/
theorem writeFrame_header {w : Sink} (hs : s.RoundTrips value)
    (h : (writeFrame s value w).1 = .ok ()) :
    ∃ payload, (writeFrame s value w).2.sent = w.sent ++ header payload.length ++ payload ∧
      0 < payload.length ∧ payload.length ≤ maxFrameBytes := by
  obtain ⟨hfits, room, hw⟩ | ⟨e, hw⟩ | ⟨-, e, part, -, hw⟩ := writeFrame_cases s value w
  · exact ⟨s.text value, by simp [hw, frame], hs.length_pos, hfits⟩
  · rw [hw] at h
    cases h
  · rw [hw] at h
    cases h

/-- So is the header of one that was sent in part. -/
theorem writeFrame_part {w : Sink} {part : List UInt8} (hs : s.RoundTrips value)
    (h : (writeFrame s value w).2.sent = w.sent ++ part) (hpart : part ≠ []) :
    ∃ payload, part <+: header payload.length ++ payload ∧ 0 < payload.length ∧
      payload.length ≤ maxFrameBytes := by
  obtain ⟨hfits, room, hw⟩ | ⟨e, hw⟩ | ⟨hfits, e, sent, hsent, hw⟩ := writeFrame_cases s value w
  · rw [hw] at h
    obtain rfl := List.append_cancel_left h
    exact ⟨s.text value, List.prefix_refl _, hs.length_pos, hfits⟩
  · rw [hw] at h
    exact absurd (List.self_eq_append_right.1 h) hpart
  · rw [hw] at h
    obtain rfl := List.append_cancel_left h
    exact ⟨s.text value, hsent, hs.length_pos, hfits⟩

/-- Framing is lossless: what a connection carries of the values written in turn is read back as
those values in that order, from whatever follows; unless the connection breaks these are all that
fit.  A value that does not fit changes nothing, every header sent is accepted, also when the rest of
the frame is not sent, and of any stream a frame is refused or consumed to its announced end. -/
theorem framing_lossless (items : List Item) (w : Sink)
    (htrips : ∀ i ∈ items, i.serde.RoundTrips i.value) :
    (∃ sent tail, (writeFrames items w).2.sent = w.sent ++ sent ++ tail ∧
      (w.room = none → tail = [] ∧ written items (writeFrames items w).1 =
        items.filter fun i => Fits i.serde i.value) ∧
      ∀ rest, readFrames ((written items (writeFrames items w).1).map Item.serde) (sent ++ rest) =
        (received (written items (writeFrames items w).1), rest)) ∧
    (∀ i ∈ items, ∀ w, maxFrameBytes < (i.serde.text i.value).length →
      ∃ e, writeFrame i.serde i.value w = (Exec.fail e, w)) ∧
    (∀ i ∈ items, ∀ w, (writeFrame i.serde i.value w).1 = .ok () →
      ∃ payload, (writeFrame i.serde i.value w).2.sent = w.sent ++ header payload.length ++ payload ∧
        0 < payload.length ∧ payload.length ≤ maxFrameBytes) ∧
    (∀ i ∈ items, ∀ w part, (writeFrame i.serde i.value w).2.sent = w.sent ++ part → part ≠ [] →
      ∃ payload, part <+: header payload.length ++ payload ∧ 0 < payload.length ∧
        payload.length ≤ maxFrameBytes) ∧
    ∀ s stream, let n := number (stream.take 4)
      (stream.length < 4 ∨ n = 0 ∨ maxFrameBytes < n ∨ stream.length < 4 + n →
        ∃ e, (readFrame s stream).1 = Exec.fail e) ∧
      (4 ≤ stream.length → 0 < n → n ≤ maxFrameBytes → 4 + n ≤ stream.length →
        readFrame s stream =
          ((s.fromSlice ((stream.drop 4).take n)).elim
            (Exec.fail (protocolError "Invalid IPC payload")) .ok, stream.drop (4 + n))) := by
  refine ⟨?_, fun i _ w hlong => ⟨_, writeFrame_oversize (Nat.not_le.2 hlong) w⟩,
    fun i hi w hok => writeFrame_header (htrips i hi) hok,
    fun i hi w part hsent hpart => writeFrame_part (htrips i hi) hsent hpart, readFrame_spec⟩
  obtain ⟨⟨tail, htail⟩, hwritten⟩ := writeFrames_sent items w
  refine ⟨frames (written items (writeFrames items w).1), tail, htail, fun hw => ?_, fun rest => ?_⟩
  · obtain ⟨hfits, hsink⟩ := writeFrames_working items hw
    refine ⟨?_, hfits⟩
    rw [hsink, hfits] at htail
    simpa using htail
  · exact readFrames_frames _ (fun i hi => ⟨(hwritten i hi).2, htrips i (hwritten i hi).1⟩) rest

/-- `serde_json` at `bool`. -/
def boolSerde : Serde where
  Value := Bool
  -- the letters of `true` and of `false`
  chunks b := [if b then [116, 114, 117, 101] else [102, 97, 108, 115, 101]]
  fromSlice text :=
    if text = [116, 114, 117, 101] then some true
    else if text = [102, 97, 108, 115, 101] then some false else none
  fromSlice_nil := rfl

theorem framing_lossless_bool :
    ∃ sent tail, (writeFrames [⟨boolSerde, true⟩, ⟨boolSerde, false⟩] {}).2.sent =
      [] ++ sent ++ tail :=
  have h := framing_lossless [⟨boolSerde, true⟩, ⟨boolSerde, false⟩] {} (by
    intro i hi
    simp only [List.mem_cons, List.not_mem_nil, or_false] at hi
    obtain rfl | rfl := hi <;> exact rfl)
  let ⟨sent, tail, h, _⟩ := h.1
  ⟨sent, tail, h⟩

end Ocvpn.Ipc
