import Lodestar.Base.Bytes

/-!
# Snappy frames

`snappyFrames/uncompress.ts`: the frames of a request or a response are taken off
a buffer as they become whole. The block decompressor is a parameter.
-/

namespace Lodestar.ReqResp

open Lodestar.Base

/-- The bytes of `sNaPpY`. -/
def IDENTIFIER : Bytes := [0x73, 0x4e, 0x61, 0x50, 0x70, 0x59]

inductive ChunkType where
  | IDENTIFIER
  | COMPRESSED
  | UNCOMPRESSED
  | PADDING
  deriving DecidableEq

def ChunkType.value : ChunkType → UInt8
  | IDENTIFIER => 0xff
  | COMPRESSED => 0x00
  | UNCOMPRESSED => 0x01
  | PADDING => 0xfe

def getChunkType (value : UInt8) : Except String ChunkType :=
  if value = ChunkType.IDENTIFIER.value then .ok .IDENTIFIER
  else if value = ChunkType.COMPRESSED.value then .ok .COMPRESSED
  else if value = ChunkType.UNCOMPRESSED.value then .ok .UNCOMPRESSED
  else if value = ChunkType.PADDING.value then .ok .PADDING
  else .error "Unsupported snappy chunk type"

def getFrameSize (buffer : Bytes) (offset : Nat) : Nat :=
  (buffer.getD offset 0).toNat + ((buffer.getD (offset + 1) 0).toNat <<< 8)
    + ((buffer.getD (offset + 2) 0).toNat <<< 16)

structure SnappyFramesUncompress where
  buffer : Bytes := []
  foundIdentifier : Bool := false
  deriving DecidableEq

/-- How a turn of the loop ends: with `break`, by a throw, or with what the frame adds to the
result. -/
inductive Turn where
  | stop
  | error (this : SnappyFramesUncompress) (error : String)
  | next (this : SnappyFramesUncompress) (data : Bytes)

variable (snappyUncompress : Bytes → Except String Bytes)

/-- What is done with a frame that was taken off the buffer. -/
def SnappyFramesUncompress.takeFrame (this : SnappyFramesUncompress) (type : ChunkType)
    (data : Bytes) : Turn :=
  if !this.foundIdentifier && type ≠ .IDENTIFIER then
    .error this "malformed input: must begin with an identifier"
  else
    match type with
    | .IDENTIFIER =>
      if data ≠ ReqResp.IDENTIFIER then .error this "malformed input: bad identifier"
      else .next { this with foundIdentifier := true } []
    | .COMPRESSED =>
      match snappyUncompress (data.drop 4) with
      | .error e => .error this e
      | .ok uncompressed => .next this uncompressed
    | .UNCOMPRESSED => .next this (data.drop 4)
    | .PADDING => .next this []

/-- The body of the loop, with its condition. -/
def SnappyFramesUncompress.turn (this : SnappyFramesUncompress) : Turn :=
  if this.buffer.length < 4 then .stop
  else
    match getChunkType (this.buffer.getD 0 0) with
    | .error e => .error this e
    | .ok type =>
      let frameSize := getFrameSize this.buffer 1
      let data := (this.buffer.drop 4).take frameSize
      if this.buffer.length - 4 < frameSize then .stop
      else
        takeFrame snappyUncompress { this with buffer := this.buffer.drop (4 + frameSize) } type data

theorem SnappyFramesUncompress.buffer_takeFrame {this this' : SnappyFramesUncompress}
    {type : ChunkType} {body data : Bytes}
    (h : this.takeFrame snappyUncompress type body = .next this' data) :
    this'.buffer = this.buffer := by
  have hnext : ∀ {this₁ : SnappyFramesUncompress} {data₁ : Bytes},
      Turn.next this₁ data₁ = .next this' data → this₁.buffer = this.buffer →
      this'.buffer = this.buffer := by
    intro this₁ data₁ heq hbuffer
    rw [← (Turn.next.inj heq).1, hbuffer]
  cases type with
  | IDENTIFIER =>
    unfold takeFrame at h
    dsimp only at h
    split_ifs at h
    exact hnext h rfl
  | COMPRESSED =>
    unfold takeFrame at h
    dsimp only at h
    cases hblock : snappyUncompress (body.drop 4) with
    | error e =>
      rw [hblock] at h
      split_ifs at h
    | ok uncompressed =>
      rw [hblock] at h
      split_ifs at h
      exact hnext h rfl
  | UNCOMPRESSED =>
    unfold takeFrame at h
    dsimp only at h
    split_ifs at h
    exact hnext h rfl
  | PADDING =>
    unfold takeFrame at h
    dsimp only at h
    split_ifs at h
    exact hnext h rfl

theorem SnappyFramesUncompress.length_turn_lt {this this' : SnappyFramesUncompress} {data : Bytes}
    (h : this.turn snappyUncompress = .next this' data) :
    this'.buffer.length < this.buffer.length := by
  unfold turn at h
  split at h
  · cases h
  · next hlength =>
    split at h
    · cases h
    · dsimp only at h
      split_ifs at h
      rw [buffer_takeFrame snappyUncompress h, List.length_drop]
      omega

/-- The loop. -/
def SnappyFramesUncompress.drain (this : SnappyFramesUncompress) (result : Bytes) :
    SnappyFramesUncompress × Except String Bytes :=
  match _h : this.turn snappyUncompress with
  | .stop => (this, .ok result)
  | .error this e => (this, .error e)
  | .next this data => this.drain (result ++ data)
termination_by this.buffer.length
decreasing_by exact length_turn_lt snappyUncompress _h

/-- `none` is `null`. -/
def SnappyFramesUncompress.uncompress (this : SnappyFramesUncompress) (chunk : Bytes) :
    SnappyFramesUncompress × Except String (Option Bytes) :=
  let (this, result) :=
    { this with buffer := this.buffer ++ chunk }.drain snappyUncompress []
  (this, result.map fun result => if result.length = 0 then none else some result)

def SnappyFramesUncompress.reset : SnappyFramesUncompress := {}

/-- The chunks one after the other, up to a throw. -/
def SnappyFramesUncompress.uncompressAll (this : SnappyFramesUncompress) :
    List Bytes → SnappyFramesUncompress × Except String (List (Option Bytes))
  | [] => (this, .ok [])
  | chunk :: chunks =>
    match this.uncompress snappyUncompress chunk with
    | (this, .error e) => (this, .error e)
    | (this, .ok returned) =>
      let (this, rest) := this.uncompressAll chunks
      (this, rest.map (returned :: ·))

/-! ## Frames -/

/-- A frame of a stream; a compressed one is here with the data it was made of. -/
inductive Frame where
  | identifier
  | compressed (checksum block data : Bytes)
  | uncompressed (checksum data : Bytes)
  | padding (body : Bytes)

namespace Frame

def type : Frame → ChunkType
  | identifier => .IDENTIFIER
  | compressed _ _ _ => .COMPRESSED
  | uncompressed _ _ => .UNCOMPRESSED
  | padding _ => .PADDING

def body : Frame → Bytes
  | identifier => IDENTIFIER
  | compressed checksum block _ => checksum ++ block
  | uncompressed checksum data => checksum ++ data
  | padding body => body

def data : Frame → Bytes
  | identifier => []
  | compressed _ _ data => data
  | uncompressed _ data => data
  | padding _ => []

/-- The type, the length of the body in three bytes, the lowest first, and the body. -/
def encode (frame : Frame) : Bytes :=
  frame.type.value :: UInt8.ofNat frame.body.length :: UInt8.ofNat (frame.body.length / 2 ^ 8)
    :: UInt8.ofNat (frame.body.length / 2 ^ 16) :: frame.body

/-- The length fits its bytes, checksums have four, and a block is one of the data. -/
structure Valid (isBlockOf : Bytes → Bytes → Prop) (frame : Frame) : Prop where
  length : frame.body.length < 2 ^ 24
  checksum : ∀ checksum block data : Bytes,
    frame = compressed checksum block data → checksum.length = 4 ∧ isBlockOf block data
  plain : ∀ checksum data : Bytes, frame = uncompressed checksum data → checksum.length = 4

end Frame

/-- Every byte string of a stream is made of these. -/
def encodeFrames (frames : List Frame) : Bytes := frames.flatMap Frame.encode

/-- The data of frames, in order. -/
def dataOf (frames : List Frame) : Bytes := frames.flatMap Frame.data

/-! ## One frame at the front of the buffer -/

theorem getChunkType_value (type : ChunkType) : getChunkType type.value = .ok type := by
  cases type <;> decide

theorem encodeFrames_cons (frame : Frame) (frames : List Frame) :
    encodeFrames (frame :: frames) = frame.encode ++ encodeFrames frames :=
  List.flatMap_cons

theorem dataOf_cons (frame : Frame) (frames : List Frame) :
    dataOf (frame :: frames) = frame.data ++ dataOf frames :=
  List.flatMap_cons

theorem dataOf_append (frames later : List Frame) :
    dataOf (frames ++ later) = dataOf frames ++ dataOf later :=
  List.flatMap_append

theorem Frame.length_encode (frame : Frame) : frame.encode.length = 4 + frame.body.length := by
  simp only [encode, List.length_cons]
  omega

theorem getFrameSize_header {size : Nat} (h : size < 2 ^ 24) (type : UInt8) (later : Bytes) :
    getFrameSize (type :: UInt8.ofNat size :: UInt8.ofNat (size / 2 ^ 8)
      :: UInt8.ofNat (size / 2 ^ 16) :: later) 1 = size := by
  simp only [getFrameSize, List.getD_cons_succ, List.getD_cons_zero, UInt8.toNat_ofNat',
    Nat.shiftLeft_eq]
  omega

section

variable {snappyUncompress} {isBlockOf : Bytes → Bytes → Prop} {frame : Frame}
  {foundIdentifier : Bool} {buffer rest later : Bytes}

theorem turn_of_short (hvalid : frame.Valid isBlockOf)
    (hstream : buffer ++ rest = frame.encode ++ later)
    (hshort : buffer.length < frame.encode.length) :
    SnappyFramesUncompress.turn snappyUncompress ⟨buffer, foundIdentifier⟩ = .stop := by
  rw [Frame.length_encode] at hshort
  unfold SnappyFramesUncompress.turn
  by_cases hheader : buffer.length < 4
  · exact if_pos hheader
  · -- the header is there and tells how much is missing
    rw [if_neg hheader]
    obtain ⟨b₀, b₁, b₂, b₃, body, rfl⟩ : ∃ b₀ b₁ b₂ b₃ body, buffer = b₀ :: b₁ :: b₂ :: b₃ :: body := by
      rcases buffer with _ | ⟨b₀, _ | ⟨b₁, _ | ⟨b₂, _ | ⟨b₃, body⟩⟩⟩⟩
      all_goals simp at hheader ⊢
    simp only [Frame.encode, List.cons_append, List.cons.injEq] at hstream
    obtain ⟨rfl, rfl, rfl, rfl, -⟩ := hstream
    simp only [List.getD_cons_zero, getChunkType_value, getFrameSize_header hvalid.length]
    rw [if_pos]
    simp only [List.length_cons] at hshort ⊢
    omega

theorem turn_of_whole
    (huncompress : ∀ block data, isBlockOf block data → snappyUncompress block = .ok data)
    (hvalid : frame.Valid isBlockOf) (hfound : foundIdentifier = true ∨ frame = .identifier) :
    SnappyFramesUncompress.turn snappyUncompress ⟨frame.encode ++ later, foundIdentifier⟩
      = .next ⟨later, true⟩ frame.data := by
  have hlength : (frame.encode ++ later).length = 4 + frame.body.length + later.length := by
    rw [List.length_append, Frame.length_encode]
  have hdrop : (frame.encode ++ later).drop (4 + frame.body.length) = later := by
    rw [← Frame.length_encode, List.drop_left]
  have hbody : ((frame.encode ++ later).drop 4).take frame.body.length = frame.body :=
    List.take_left
  have htype : getChunkType ((frame.encode ++ later).getD 0 0) = .ok frame.type :=
    getChunkType_value frame.type
  have hsize : getFrameSize (frame.encode ++ later) 1 = frame.body.length :=
    getFrameSize_header hvalid.length _ _
  unfold SnappyFramesUncompress.turn
  simp only [htype, hsize, hbody, hdrop]
  rw [if_neg (by omega), if_neg (by omega)]
  unfold SnappyFramesUncompress.takeFrame
  cases frame with
  | identifier => simp [Frame.type, Frame.body, Frame.data]
  | compressed checksum block data =>
    obtain ⟨hchecksum, hblock⟩ := hvalid.checksum checksum block data rfl
    obtain rfl : foundIdentifier = true := hfound.resolve_right nofun
    have hblockBytes : (checksum ++ block).drop 4 = block := by rw [← hchecksum, List.drop_left]
    simp [Frame.type, Frame.body, Frame.data, hblockBytes, huncompress block data hblock]
  | uncompressed checksum data =>
    have hchecksum := hvalid.plain checksum data rfl
    obtain rfl : foundIdentifier = true := hfound.resolve_right nofun
    have hdata : (checksum ++ data).drop 4 = data := by rw [← hchecksum, List.drop_left]
    simp [Frame.type, Frame.body, Frame.data, hdata]
  | padding body =>
    obtain rfl : foundIdentifier = true := hfound.resolve_right nofun
    simp [Frame.type, Frame.data]

end

/-! ## A stream in chunks -/

section

variable {snappyUncompress} {isBlockOf : Bytes → Bytes → Prop} {this : SnappyFramesUncompress}
  {frames : List Frame} {rest : Bytes}

theorem drain_of_stop (h : this.turn snappyUncompress = .stop) (result : Bytes) :
    this.drain snappyUncompress result = (this, .ok result) := by
  rw [SnappyFramesUncompress.drain]
  split <;> simp_all

theorem drain_of_next {this' : SnappyFramesUncompress} {data : Bytes}
    (h : this.turn snappyUncompress = .next this' data) (result : Bytes) :
    this.drain snappyUncompress result = this'.drain snappyUncompress (result ++ data) := by
  rw [SnappyFramesUncompress.drain]
  split <;> simp_all

/-- What is in the buffer and what is still to come are these frames. -/
structure Awaits (isBlockOf : Bytes → Bytes → Prop) (this : SnappyFramesUncompress) (rest : Bytes)
    (frames : List Frame) : Prop where
  valid : ∀ frame ∈ frames, frame.Valid isBlockOf
  stream : this.buffer ++ rest = encodeFrames frames
  start : this.foundIdentifier = true ∨ frames.head? = some .identifier

theorem drain_spec
    (huncompress : ∀ block data, isBlockOf block data → snappyUncompress block = .ok data)
    (h : Awaits isBlockOf this rest frames) (result : Bytes) :
    ∃ this' taken left, frames = taken ++ left ∧
      this.drain snappyUncompress result = (this', .ok (result ++ dataOf taken)) ∧
      Awaits isBlockOf this' rest left ∧ (rest = [] → left = []) := by
  induction frames generalizing this result with
  | nil =>
    obtain ⟨hbuffer, -⟩ := List.append_eq_nil_iff.mp h.stream
    have hstop : this.turn snappyUncompress = .stop := by
      unfold SnappyFramesUncompress.turn
      rw [hbuffer]
      rfl
    refine ⟨this, [], [], rfl, ?_, h, fun _ => rfl⟩
    rw [drain_of_stop hstop, dataOf, List.flatMap_nil, List.append_nil]
  | cons frame frames ih =>
    have hvalid := h.valid frame List.mem_cons_self
    have hstream := h.stream
    rw [encodeFrames_cons] at hstream
    by_cases hwhole : frame.encode.length ≤ this.buffer.length
    · obtain ⟨later, hbuffer⟩ : frame.encode <+: this.buffer :=
        List.prefix_of_prefix_length_le ⟨_, hstream.symm⟩ (List.prefix_append _ _) hwhole
      have hlater : later ++ rest = encodeFrames frames := by
        rw [← hbuffer, List.append_assoc] at hstream
        exact List.append_cancel_left hstream
      have hfound : this.foundIdentifier = true ∨ frame = .identifier :=
        h.start.imp_right fun hhead => Option.some.inj hhead
      have hnext := @turn_of_whole snappyUncompress _ _ _ later huncompress hvalid hfound
      rw [hbuffer] at hnext
      have hawaits : Awaits isBlockOf ⟨later, true⟩ rest frames :=
        ⟨fun later hmem => h.valid later (List.mem_cons_of_mem _ hmem), hlater, .inl rfl⟩
      obtain ⟨this', taken, left, rfl, hdrain, hleft, hend⟩ := ih hawaits (result ++ frame.data)
      refine ⟨this', frame :: taken, left, rfl, ?_, hleft, hend⟩
      rw [drain_of_next hnext, hdrain, dataOf_cons, List.append_assoc]
    · have hstop := @turn_of_short snappyUncompress _ _ this.foundIdentifier _ _ _ hvalid hstream
        (by omega)
      refine ⟨this, [], frame :: frames, rfl, ?_, h, ?_⟩
      · rw [drain_of_stop hstop, dataOf, List.flatMap_nil, List.append_nil]
      · rintro rfl
        have := congrArg List.length hstream
        simp only [List.append_nil, List.length_append] at this
        omega

theorem uncompress_spec
    (huncompress : ∀ block data, isBlockOf block data → snappyUncompress block = .ok data)
    {chunk : Bytes} (h : Awaits isBlockOf this (chunk ++ rest) frames) :
    ∃ this' taken left returned, frames = taken ++ left ∧
      this.uncompress snappyUncompress chunk = (this', .ok returned) ∧
      returned.getD [] = dataOf taken ∧ Awaits isBlockOf this' rest left ∧
      (rest = [] → left = []) := by
  have hawaits : Awaits isBlockOf { this with buffer := this.buffer ++ chunk } rest frames :=
    ⟨h.valid, by rw [← h.stream, List.append_assoc], h.start⟩
  obtain ⟨this', taken, left, hframes, hdrain, hleft, hend⟩ := drain_spec huncompress hawaits []
  refine ⟨this', taken, left, if (dataOf taken).length = 0 then none else some (dataOf taken),
    hframes, ?_, ?_, hleft, hend⟩
  · rw [SnappyFramesUncompress.uncompress, hdrain, List.nil_append]
    rfl
  · split
    · next hempty => exact (List.eq_nil_of_length_eq_zero hempty).symm
    · rfl

theorem uncompressAll_spec
    (huncompress : ∀ block data, isBlockOf block data → snappyUncompress block = .ok data)
    {chunks : List Bytes} (h : Awaits isBlockOf this chunks.flatten frames)
    (hend : chunks.flatten = [] → frames = []) :
    ∃ this' returned, this.uncompressAll snappyUncompress chunks = (this', .ok returned) ∧
      this'.buffer = [] ∧ returned.flatMap (·.getD []) = dataOf frames := by
  induction chunks generalizing this frames with
  | nil =>
    obtain rfl := hend rfl
    exact ⟨this, [], rfl, (List.append_eq_nil_iff.mp h.stream).1, rfl⟩
  | cons chunk chunks ih =>
    rw [List.flatten_cons] at h
    obtain ⟨this₁, taken, left, first, rfl, hfirst, hdata, hleft, hend₁⟩ :=
      uncompress_spec huncompress h
    obtain ⟨this', returned, hall, hbuffer, hrest⟩ := ih hleft hend₁
    refine ⟨this', first :: returned, ?_, hbuffer, ?_⟩
    · rw [SnappyFramesUncompress.uncompressAll, hfirst]
      dsimp only
      rw [hall]
      rfl
    · rw [List.flatMap_cons, hdata, hrest, dataOf_append]

end

/-- However a stream of frames is cut, no chunk is refused, what is returned is the data of the
frames and nothing is left in the buffer. -/
theorem uncompressAll_of_stream {snappyUncompress : Bytes → Except String Bytes}
    {isBlockOf : Bytes → Bytes → Prop}
    (huncompress : ∀ block data, isBlockOf block data → snappyUncompress block = .ok data)
    {frames : List Frame} (hvalid : ∀ frame ∈ frames, frame.Valid isBlockOf)
    {chunks : List Bytes} (hchunks : chunks.flatten = encodeFrames (.identifier :: frames)) :
    ∃ this returned,
      SnappyFramesUncompress.reset.uncompressAll snappyUncompress chunks = (this, .ok returned) ∧
        this.buffer = [] ∧ returned.flatMap (·.getD []) = dataOf frames := by
  have hidentifier : Frame.identifier.Valid isBlockOf := ⟨by decide, nofun, nofun⟩
  have hawaits : Awaits isBlockOf .reset chunks.flatten (.identifier :: frames) :=
    ⟨List.forall_mem_cons.mpr ⟨hidentifier, hvalid⟩, hchunks.symm ▸ rfl, .inr rfl⟩
  have hend : chunks.flatten = [] → Frame.identifier :: frames = [] := by
    intro hnil
    rw [hnil] at hchunks
    cases hchunks
  obtain ⟨this, returned, hall, hbuffer, hdata⟩ := uncompressAll_spec huncompress hawaits hend
  exact ⟨this, returned, hall, hbuffer, hdata.trans (dataOf_cons .identifier frames)⟩

/-- A block of one literal of up to 60 bytes: the length, the tag and the bytes. -/
def literalBlock (data : Bytes) : Bytes :=
  UInt8.ofNat data.length :: UInt8.ofNat ((data.length - 1) * 4) :: data

/-- Only blocks of one literal are read. -/
def uncompressLiteral (block : Bytes) : Except String Bytes :=
  if 2 < block.length ∧ block = literalBlock (block.drop 2) then .ok (block.drop 2)
  else .error "Invalid Snappy bitstream"

/-- Nine bytes in a block and two that are not compressed, padding between, cut within a header. -/
theorem uncompressAll_of_stream_cut :
    ∃ this returned,
      SnappyFramesUncompress.reset.uncompressAll uncompressLiteral
          [[0xff, 0x06, 0], [0, 0x73, 0x4e, 0x61, 0x50, 0x70, 0x59, 0, 9, 0], [],
            [0, 1, 2, 3, 4, 3, 8, 7, 8, 9, 0xfe, 1, 0, 0, 5, 1, 6, 0], [0, 1, 2, 3, 4, 10, 11]]
        = (this, .ok returned) ∧
        this.buffer = [] ∧ returned.flatMap (·.getD []) = [7, 8, 9, 10, 11] := by
  refine @uncompressAll_of_stream uncompressLiteral
    (fun block data => data = [7, 8, 9] ∧ block = literalBlock data) ?_
    [.compressed [1, 2, 3, 4] [3, 8, 7, 8, 9] [7, 8, 9], .padding [5],
      .uncompressed [1, 2, 3, 4] [10, 11]] ?_ _ rfl
  · rintro _ _ ⟨rfl, rfl⟩
    rfl
  · intro frame hmem
    fin_cases hmem
    · exact ⟨by decide, fun _ _ _ heq => by cases heq; exact ⟨rfl, rfl, rfl⟩, nofun⟩
    · exact ⟨by decide, nofun, nofun⟩
    · exact ⟨by decide, nofun, fun _ _ heq => by cases heq; rfl⟩

end Lodestar.ReqResp
