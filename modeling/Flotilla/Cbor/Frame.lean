import Flotilla.Lib.Bytes
import Flotilla.Cbor.Message

/-!
# Stream framing

A frame is an eight-byte magic, a big-endian `u32` body length and one message body.  A
reader is the events it still gives: chunks of bytes, and interruptions that are tried again;
then the stream ends.

* `fill_cut` : how a stream was cut does not matter to what is read from it.
* `reads_frames` : reading again and again gives the messages whose frames arrived whole, then
  the end of the stream on a boundary and a truncation inside a frame; on one frame reading is
  decoding.
-/

namespace Flotilla.Cbor

open Lib

def unexpectedEof : FrameError := .io "unexpected end of file"

/-- `u32::from_be_bytes`. -/
def fromBeBytes (bytes : Bytes) : Nat := bytes.foldl (fun n byte => n * 256 + byte.toNat) 0

/-- One protocol's framing: its magic and its limits. -/
structure Framing where
  magic : Bytes
  limits : Limits
  magic_length : magic.length = 8

/-- What a reader gives next. -/
inductive ReadEvent where
  | chunk (bytes : Bytes)
  | interrupted
  | failed (kind : String)
  deriving DecidableEq

/-- Reads until `need` bytes are there or the stream ends, with an interrupted read tried
again: the header loop, and `take(need).read_to_end`. -/
def fill (need : Nat) (got : Bytes) : List ReadEvent → Except FrameError (Bytes × List ReadEvent)
  | [] => .ok (got, [])
  | event :: events =>
    if need ≤ got.length then .ok (got, event :: events)
    else match event with
      | .interrupted => fill need got events
      | .failed kind => .error (.io kind)
      | .chunk bytes =>
        if got.length + bytes.length ≤ need then fill need (got ++ bytes) events
        else .ok (got ++ bytes.take (need - got.length),
          .chunk (bytes.drop (need - got.length)) :: events)

namespace Framing

variable {M : Type} (f : Framing) (c : Codec M)

/-- The body length a header announces, checked against the message limit. -/
def bodyLen (header : Bytes) : Except FrameError Nat := do
  refuseIf (header.take 8 ≠ f.magic) (.profile .badMagic none)
  let len := fromBeBytes (header.drop 8)
  refuseIf (len > f.limits.maxMessage)
    (.profile .messageLimit (some s!"{len}, limit {f.limits.maxMessage}"))
  pure len

def encode (message : M) : Except FrameError Bytes := do
  let body ← encodeMessage c f.limits message
  refuseIf (2 ^ 32 ≤ body.length) (.profile .messageLimit none)
  pure (f.magic ++ toBeBytes 4 body.length ++ body)

def decode (frame : Bytes) : Except FrameError M := do
  refuseIf (frame.length < 12) truncated
  let len ← f.bodyLen (frame.take 12)
  refuseIf ((frame.drop 12).length < len) truncated
  refuseIf ((frame.drop 12).length ≠ len) (.profile .trailingBytes none)
  decodeMessage c f.limits (frame.drop 12)

/-- Reads one frame, and what the reader still gives. -/
def read (events : List ReadEvent) : Except FrameError (M × List ReadEvent) := do
  let header ← fill 12 [] events
  refuseIf (header.1 = []) unexpectedEof
  refuseIf (header.1.length < 12) truncated
  let len ← f.bodyLen header.1
  let body ← fill len [] header.2
  refuseIf (body.1.length < len) truncated
  let message ← decodeMessage c f.limits body.1
  pure (message, body.2)

/-- Reading again and again, up to the first error. -/
inductive Reads : List ReadEvent → List M → FrameError → Prop
  | stop {events error} : f.read c events = .error error → Reads events [] error
  | next {events rest message messages error} : f.read c events = .ok (message, rest) →
      Reads rest messages error → Reads events (message :: messages) error

end Framing

/-- The bytes, cut into chunks that are not empty, with interruptions between them. -/
inductive Cut : List ReadEvent → Bytes → Prop
  | done : Cut [] []
  | interrupted {events bytes} : Cut events bytes → Cut (.interrupted :: events) bytes
  | chunk {events bytes} (first : Bytes) : first ≠ [] → Cut events bytes →
      Cut (.chunk first :: events) (first ++ bytes)

/-- How many of the frames lie whole within the first `n` bytes. -/
def arrived : List Bytes → Nat → Nat
  | [], _ => 0
  | frame :: frames, n => if frame.length ≤ n then arrived frames (n - frame.length) + 1 else 0

theorem fromBeBytes_toBeBytes {w n : Nat} (h : n < 256 ^ w) : fromBeBytes (toBeBytes w n) = n := by
  induction w generalizing n with
  | zero => simp_all [fromBeBytes, toBeBytes]
  | succ w ih =>
    have hhigh := ih (n := n / 256) (by rw [pow_succ] at h; omega)
    simp only [fromBeBytes] at hhigh
    simp only [fromBeBytes, toBeBytes, List.foldl_append, hhigh, List.foldl_cons, List.foldl_nil,
      UInt8.toNat_ofNat']
    omega

/-- However a stream was cut, reading takes the bytes it needs off its front. -/
theorem fill_cut {events : List ReadEvent} {bytes : Bytes} (h : Cut events bytes) (need : Nat)
    (got : Bytes) (hgot : got.length ≤ need) :
    ∃ rest, fill need got events = .ok (got ++ bytes.take (need - got.length), rest) ∧
      Cut rest (bytes.drop (need - got.length)) := by
  induction h generalizing got with
  | done => exact ⟨[], by simp [fill], by simpa using Cut.done⟩
  | @interrupted events bytes h ih =>
    rw [fill]
    split_ifs with hfull
    · have hneed : need - got.length = 0 := by omega
      exact ⟨_, congrArg Except.ok (Prod.ext (by simp [hneed]) rfl),
        by simpa [hneed] using h.interrupted⟩
    · exact ih got hgot
  | @chunk events bytes first hne h ih =>
    rw [fill]
    split_ifs with hfull hwhole
    · have hneed : need - got.length = 0 := by omega
      exact ⟨_, congrArg Except.ok (Prod.ext (by simp [hneed]) rfl),
        by simpa [hneed] using h.chunk first hne⟩
    · obtain ⟨rest, hrest, hcut⟩ := ih (got ++ first) (by simpa using hwhole)
      have hsub : need - got.length - first.length = need - (got ++ first).length := by
        rw [List.length_append]
        omega
      have hle : first.length ≤ need - got.length := by omega
      refine ⟨rest, ?_, ?_⟩
      · rw [hrest, List.take_append, List.take_of_length_le hle, hsub, List.append_assoc]
      · rwa [List.drop_append, List.drop_eq_nil_of_le hle, List.nil_append, hsub]
    · have hle : need - got.length ≤ first.length := by omega
      refine ⟨_, by rw [List.take_append_of_le_length hle], ?_⟩
      rw [List.drop_append_of_le_length hle]
      exact h.chunk _ fun hnil => by have := List.drop_eq_nil_iff.mp hnil; omega

theorem refuseIf_error {E B : Type} {p : Prop} [Decidable p] {e : E} {g : Unit → Except E B}
    (h : p) : (refuseIf p e >>= g) = .error e := by
  rw [refuseIf, if_pos h]
  rfl

namespace Framing

variable {M : Type} {f : Framing} {c : Codec M}

/-- What reading does with a stream, however it was cut. -/
theorem read_cut {events : List ReadEvent} {bytes : Bytes} (h : Cut events bytes) :
    (bytes = [] → f.read c events = .error unexpectedEof) ∧
    (bytes ≠ [] → bytes.length < 12 → f.read c events = .error truncated) ∧
    (12 ≤ bytes.length → ∀ error, f.bodyLen (bytes.take 12) = .error error →
      f.read c events = .error error) ∧
    ∀ len, 12 ≤ bytes.length → f.bodyLen (bytes.take 12) = .ok len →
      (bytes.length < 12 + len → f.read c events = .error truncated) ∧
      (12 + len ≤ bytes.length → ∃ rest, Cut rest (bytes.drop (12 + len)) ∧
        f.read c events = (decodeMessage c f.limits ((bytes.drop 12).take len)).map (·, rest)) := by
  obtain ⟨rest, hheader, hrest⟩ := fill_cut h 12 [] (by simp)
  simp only [List.nil_append, List.length_nil, Nat.sub_zero] at hheader hrest
  have hread : f.read c events = _ := bind_ok hheader
  refine ⟨fun hnil => ?_, fun hne hshort => ?_, fun hlong error herror => ?_,
    fun len hlong hlen => ?_⟩
  · rw [hread, hnil]
    rfl
  · rw [hread, refuseIf_bind (by simpa using hne), refuseIf_error (by simpa using hshort)]
  · have hne : bytes ≠ [] := fun hnil => by simp [hnil] at hlong
    rw [hread, refuseIf_bind (by simpa using hne), refuseIf_bind (by simpa using hlong), herror]
    rfl
  · have hne : bytes ≠ [] := fun hnil => by simp [hnil] at hlong
    obtain ⟨rest', hbody, hrest'⟩ := fill_cut hrest len [] (by simp)
    simp only [List.nil_append, List.length_nil, Nat.sub_zero, List.drop_drop] at hbody hrest'
    rw [hread, refuseIf_bind (by simpa using hne), refuseIf_bind (by simpa using hlong),
      bind_ok hlen, bind_ok hbody]
    constructor
    · intro hshort
      have hless : ((bytes.drop 12).take len).length < len := by simp; omega
      exact refuseIf_error hless
    · intro hwhole
      have hless : ¬ ((bytes.drop 12).take len).length < len := by simp; omega
      refine ⟨rest', hrest', ?_⟩
      rw [refuseIf_bind hless]
      cases decodeMessage c f.limits ((bytes.drop 12).take len) <;> rfl

/-- What a framing writes for a body. -/
def frame (f : Framing) (body : Bytes) : Bytes := f.magic ++ toBeBytes 4 body.length ++ body

/-- **A message is framed exactly when its body is within the limits**, and has a `u32` length. -/
theorem encode_iff {message : M} {bytes : Bytes} : f.encode c message = .ok bytes ↔
    ∃ body, Fits c f.limits message body ∧ body.length < 2 ^ 32 ∧ bytes = f.frame body := by
  constructor
  · intro h
    obtain ⟨body, hbody, h⟩ := bind_eq_ok h
    obtain ⟨hlen, h⟩ := of_refuseIf h
    cases h
    exact ⟨body, encodeMessage_iff.mp hbody, Nat.lt_of_not_le hlen, rfl⟩
  · rintro ⟨body, hfits, hlen, rfl⟩
    rw [encode, bind_ok (encodeMessage_iff.mpr hfits), refuseIf_bind (Nat.not_le.mpr hlen)]
    rfl

theorem frame_eq {body : Bytes} (hsize : body.length ≤ f.limits.maxMessage)
    (hlen : body.length < 2 ^ 32) :
    (f.frame body).length = 12 + body.length ∧ (f.frame body).drop 12 = body ∧
      f.bodyLen ((f.frame body).take 12) = .ok body.length := by
  have hmagic := f.magic_length
  have htake : (f.frame body).take 12 = f.magic ++ toBeBytes 4 body.length :=
    List.take_left' (by simp [hmagic])
  refine ⟨by simp [frame, hmagic]; omega, List.drop_left' (by simp [hmagic]), ?_⟩
  rw [htake, bodyLen, List.take_left' hmagic, List.drop_left' hmagic,
    fromBeBytes_toBeBytes (by omega)]
  exact (refuseIf_bind (by simp)).trans (refuseIf_bind (Nat.not_lt.mpr hsize))

/-- The library reads back the bodies that it writes within the limits. -/
def ReadsBack (c : Codec M) (limits : Limits) : Prop :=
  ∀ message body, Fits c limits message body → deserialize c limits body = .ok message

theorem reads_cut (hback : ReadsBack c f.limits) {messages : List M} {frames : List Bytes}
    (h : messages.mapM (f.encode c) = .ok frames) {n : Nat} {events : List ReadEvent}
    (hcut : Cut events (frames.flatten.take n)) :
    f.Reads c events (messages.take (arrived frames n))
      (if frames.flatten.take n = (frames.take (arrived frames n)).flatten then unexpectedEof
        else truncated) := by
  induction messages generalizing frames n events with
  | nil =>
    cases h
    simpa [arrived] using Reads.stop ((read_cut hcut).1 (by simp))
  | cons message messages ih =>
    rw [List.mapM_cons] at h
    obtain ⟨frame, hframe, h⟩ := bind_eq_ok h
    obtain ⟨frames, hframes, h⟩ := bind_eq_ok h
    cases h
    obtain ⟨body, hfits, hsmall, rfl⟩ := encode_iff.mp hframe
    obtain ⟨hlength, hbody, hlen⟩ := frame_eq hfits.size hsmall
    have hdecode : decodeMessage c f.limits body = .ok message := by
      rw [decodeMessage_of_fits hfits, hback message body hfits]
    rw [List.flatten_cons] at hcut ⊢
    by_cases hwhole : (f.frame body).length ≤ n
    · -- the frame is there, and the rest of the stream is cut as it was
      rw [List.take_append, List.take_of_length_le hwhole] at hcut ⊢
      obtain ⟨rest, hrest, hread⟩ := ((read_cut hcut).2.2.2 body.length
        (by rw [List.length_append]; omega)
        (by rwa [List.take_append_of_le_length (by omega)])).2 (by rw [List.length_append]; omega)
      rw [← hlength, List.drop_left] at hrest
      rw [List.drop_append_of_le_length (by omega), hbody, List.take_left, hdecode] at hread
      simp only [arrived, if_pos hwhole, List.take_succ_cons, List.flatten_cons,
        List.append_cancel_left_eq]
      exact .next hread (ih hframes hrest)
    · rw [List.take_append_of_le_length (by omega)] at hcut ⊢
      simp only [arrived, if_neg hwhole, List.take_zero, List.flatten_nil]
      refine .stop ?_
      have hcases := read_cut (f := f) (c := c) hcut
      split_ifs with hnil
      · exact hcases.1 hnil
      · by_cases hheader : ((f.frame body).take n).length < 12
        · exact hcases.2.1 hnil hheader
        · have hn : 12 ≤ n := by rw [List.length_take] at hheader; omega
          refine (hcases.2.2.2 body.length (by omega) ?_).1 (by rw [List.length_take]; omega)
          rwa [List.take_take, Nat.min_eq_left hn]

/-- **Reading a stream of frames**: messages whose bodies are within the limits are framed; reading
their stream gives the messages whose frames arrived whole, then the end of the stream on a
boundary or a truncation inside a frame.  On bytes that start a frame and hold nothing after it,
reading is decoding. -/
theorem reads_frames (f : Framing) (c : Codec M) (hback : ReadsBack c f.limits) :
    (∀ message, (∃ bytes, f.encode c message = .ok bytes) ↔
      ∃ body, Fits c f.limits message body ∧ body.length < 2 ^ 32) ∧
    (∀ messages : List M, (∀ message ∈ messages, ∃ bytes, f.encode c message = .ok bytes) →
      ∃ frames, messages.mapM (f.encode c) = .ok frames ∧ ∀ n events,
        Cut events (frames.flatten.take n) → f.Reads c events (messages.take (arrived frames n))
          (if frames.flatten.take n = (frames.take (arrived frames n)).flatten then unexpectedEof
            else truncated)) ∧
    ∀ (bytes : Bytes) events, Cut events bytes → bytes ≠ [] →
      (∀ len, f.bodyLen (bytes.take 12) = .ok len → bytes.length ≤ 12 + len) →
      (f.read c events).map Prod.fst = f.decode c bytes := by
  refine ⟨fun message => ?_, fun messages h => ?_, fun bytes events hcut hne hlast => ?_⟩
  · simp only [encode_iff]
    exact ⟨fun ⟨_, body, hfits, hlen, _⟩ => ⟨body, hfits, hlen⟩,
      fun ⟨body, hfits, hlen⟩ => ⟨_, body, hfits, hlen, rfl⟩⟩
  · obtain ⟨frames, hframes, -⟩ := exists_mapM_ok (Q := fun _ => True) (f := f.encode c)
      fun message hm => (h message hm).imp fun _ hbytes => ⟨hbytes, trivial⟩
    exact ⟨frames, hframes, fun n events => reads_cut hback hframes⟩
  obtain ⟨-, hshort, hbad, hgood⟩ := read_cut hcut
  by_cases hheader : bytes.length < 12
  · rw [hshort hne hheader, decode, refuseIf_error hheader]
    rfl
  · rw [decode, refuseIf_bind hheader]
    cases hlen : f.bodyLen (bytes.take 12) with
    | error error =>
      rw [hbad (by omega) error hlen]
      rfl
    | ok len =>
      have hle := hlast len hlen
      obtain ⟨htruncated, hwhole⟩ := hgood len (by omega) hlen
      rw [bind_ok rfl, List.length_drop]
      by_cases hbody : bytes.length < 12 + len
      · rw [htruncated hbody, refuseIf_error (by omega)]
        rfl
      · obtain ⟨rest, -, hread⟩ := hwhole (by omega)
        rw [hread, refuseIf_bind (by omega), refuseIf_bind (by omega),
          List.take_of_length_le (by rw [List.length_drop]; omega)]
        cases decodeMessage c f.limits (bytes.drop 12) <;> rfl

/-! ### Small messages -/

/-- The body of a message of type `ping` with one small number. -/
def pingBody (n : Fin 24) : Bytes :=
  [0xa2, 0x61, 0x6e, .ofNat n, 0x64, 0x74, 0x79, 0x70, 0x65, 0x64, 0x70, 0x69, 0x6e, 0x67]

/-- The library, as far as such messages need it: short heads and plain texts. -/
def pings : Codec (Fin 24) where
  types := ["ping"]
  toCanonicalVec n := .ok (pingBody n)
  validateSlice _ := .ok ()
  pull
    | [] => .error .io
    | byte :: _ =>
      let len := (byte &&& 31).toNat
      if 24 ≤ len then .error .malformed
      else match (byte >>> 5).toNat with
        | 0 => .ok (.positive, 1)
        | 3 => .ok (.text (some len), 1)
        | 5 => .ok (.map (some len), 1)
        | _ => .error .malformed
  deserialize _ bytes :=
    okOr ((List.finRange 24).find? fun n => pingBody n = bytes) (.other "not a ping")
  probe _ bytes :=
    .ok (if (bytes.drop 4).take 5 = [0x64, 0x74, 0x79, 0x70, 0x65] then some (.text "ping")
      else none)
  fromUtf8 bytes :=
    if bytes.all (· < 128) then some (String.ofList (bytes.map fun byte => Char.ofNat byte.toNat))
    else none
  debug text := text

def pingFraming : Framing := ⟨[0x70, 0x69, 0x6e, 0x67, 0x2d, 0x66, 0x6c, 0x74], defaultLimits, rfl⟩

theorem fits_ping (n : Fin 24) : Fits pings defaultLimits n (pingBody n) where
  written := rfl
  size := by simp [pingBody, defaultLimits]
  valid := ⟨(), rfl⟩
  scanned := by
    revert n
    decide +kernel
  typed := by
    refine ⟨"ping", ?_⟩
    revert n
    decide +kernel

theorem readsBack_pings : ReadsBack pings defaultLimits := by
  intro n body h
  cases h.written
  have hall : ∀ n : Fin 24, deserialize pings defaultLimits (pingBody n) = .ok n := by
    decide +kernel
  exact hall n

/-- Three frames, in two pieces, and cut inside the third. -/
theorem reads_frames_pings :
    let stream := ([1, 2, 3] : List (Fin 24)).flatMap fun n => pingFraming.frame (pingBody n)
    pingFraming.Reads pings
      [.chunk (stream.take 30), .interrupted, .chunk ((stream.drop 30).take 30)] [1, 2]
      truncated := by
  intro stream
  have hencode : ∀ n, pingFraming.encode pings n = .ok (pingFraming.frame (pingBody n)) :=
    fun n => encode_iff.mpr ⟨_, fits_ping n, by simp [pingBody], rfl⟩
  obtain ⟨frames, hframes, hreads⟩ := (reads_frames pingFraming pings readsBack_pings).2.1 [1, 2, 3]
    fun n _ => ⟨_, hencode n⟩
  obtain rfl := Except.ok.inj ((mapM_ok fun n _ => hencode n).symm.trans hframes)
  have hcut : Cut [.chunk (stream.take 30), .interrupted, .chunk ((stream.drop 30).take 30)]
      (stream.take 30 ++ ((stream.drop 30).take 30 ++ [])) :=
    .chunk _ (by decide +kernel) (.interrupted (.chunk _ (by decide +kernel) .done))
  exact hreads 60 _ hcut

end Framing

end Flotilla.Cbor
