import Muduo.Machine.Loop
import Muduo.Net.Buffer.Raw

/-!
# ZlibOutputStream

`ZlibOutputStream` of `muduo/net/ZlibStream.h`. What `deflate` does in a call is an `Answer`: how
much of the input it consumes, what it puts out, and what it returns. A stream comes with the
answers of the calls to come, any list of them; a call without an answer, or with one that takes
more than there is, does not happen.

The pointer `next_in` is into the argument of a write. It is the bytes from there to the end of the
argument, which are taken to be the same until the next write.

## Main results

* `compresses_once_iff`: every byte is compressed once, and no assertion fails, if and only if no
  string is written after a buffer, no bytes are taken from a string that is refused or, by
  `finish`, from what is left of a buffer, and the sizes that `deflate` is given are not cut off.
-/

namespace Muduo

open Machine

/-- What the functions of zlib return. -/
inductive ZError where
  | Z_OK
  | Z_STREAM_END
  | Z_STREAM_ERROR
  | Z_DATA_ERROR
  | Z_MEM_ERROR
  | Z_BUF_ERROR
  | Z_VERSION_ERROR
  deriving DecidableEq, Repr

/-- A call of `deflate`. -/
structure Answer where
  consumed : ℕ
  produced : List UInt8
  error : ZError
  deriving DecidableEq, Repr

/-- `consumed` and `produced` are the bytes that went through `deflate`. `accepted` are the strings
whose writes succeeded and the bytes that were retrieved from the buffers written. -/
structure ZlibOutputStream where
  output : Buffer
  nextIn : Option (List UInt8)
  availIn : ℕ
  zerror : ZError
  bufferSize : ℕ
  answers : List Answer
  consumed : List UInt8
  produced : List UInt8
  accepted : List UInt8

/-- The length of a `StringPiece` is an `int`. -/
abbrev StringPiece : Type := { str : List UInt8 // str.length < 2 ^ 31 }

namespace ZlibOutputStream

/-- `init` is what `deflateInit` returns. -/
def new (output : Buffer) (init : ZError) (answers : List Answer) : ZlibOutputStream where
  output := output
  nextIn := none
  availIn := 0
  zerror := init
  bufferSize := 1024
  answers := answers
  consumed := []
  produced := []
  accepted := []

/-- The bytes at `next_in`. -/
def input (s : ZlibOutputStream) : List UInt8 := s.nextIn.getD []

/-- `next_in` and `avail_in` are set. -/
def setInput (s : ZlibOutputStream) (data : List UInt8) (size : ℕ) : ZlibOutputStream :=
  { s with nextIn := some data, availIn := size }

/-- `static_cast<int>` of a size that goes to a `uInt`. -/
def toUInt (n : ℕ) : ℕ := n % 2 ^ 32

/-- `deflate` with the answer `a`, and the writable bytes of `output` to write to. -/
def deflate (s : ZlibOutputStream) (output : Buffer) (a : Answer) (answers : List Answer)
    (h : a.produced.length ≤ output.writableBytes) : ZlibOutputStream :=
  { s with
    output := output.copyIn a.produced h
    nextIn := s.nextIn.map (·.drop a.consumed)
    availIn := s.availIn - a.consumed
    answers := answers
    consumed := s.consumed ++ s.input.take a.consumed
    produced := s.produced ++ a.produced }

/-- `zerror_ = compress(flush)`. -/
def compress (s : ZlibOutputStream) : Code ZlibOutputStream := do
  let ⟨output, _⟩ ← s.output.ensureWritableBytes s.bufferSize
  let availOut := toUInt output.writableBytes
  match s.answers with
  | [] => .error .disabled
  | a :: answers =>
    if h : a.consumed ≤ s.availIn ∧ a.produced.length ≤ availOut then do
      let s := s.deflate output a answers (h.2.trans (Nat.mod_le ..))
      let output ← s.output.hasWritten (s.output.writableBytes - (availOut - a.produced.length))
      return { s with
        output := output
        zerror := a.error
        bufferSize :=
          if output.writableBytes = 0 ∧ s.bufferSize < 65536 then s.bufferSize * 2
          else s.bufferSize }
    else
      .error .disabled

/-- A round of the loop of `write(StringPiece)`. -/
def writeRound (s : ZlibOutputStream) : Code (Round ZlibOutputStream) :=
  if 0 < s.availIn ∧ s.zerror = .Z_OK then .again <$> s.compress else return .stop s

def writeString (s : ZlibOutputStream) (str : StringPiece) : Code ZlibOutputStream :=
  if s.zerror ≠ .Z_OK then
    return s
  else do
    check .zlibNextIn (s.nextIn = none ∧ s.availIn = 0)
    let s ← loop .outOfFuel writeRound (fun s => s.answers.length) (s.setInput str.1 str.1.length)
    let s := if s.zerror = .Z_OK then { s with accepted := s.accepted ++ str.1 } else s
    if s.availIn = 0 then do
      check .zlibInput (s.nextIn = some [])
      return { s with nextIn := none }
    else
      return s

/-- The input is compressed as far as one call goes. -/
def compressOnce (s : ZlibOutputStream) : Code ZlibOutputStream :=
  if 0 < s.availIn ∧ s.zerror = .Z_OK then s.compress else return s

def writeBuffer (s : ZlibOutputStream) (input : Buffer) : Code ZlibOutputStream :=
  if s.zerror ≠ .Z_OK then
    return s
  else do
    let s ← (s.setInput input.readable (toUInt input.readableBytes)).compressOnce
    let retrieved := input.readableBytes - s.availIn
    let _ ← input.retrieve retrieved
    return { s with accepted := s.accepted ++ input.readable.take retrieved }

/-- A round of the loop of `finish`. -/
def finishRound (s : ZlibOutputStream) : Code (Round ZlibOutputStream) :=
  if s.zerror = .Z_OK then .again <$> s.compress else return .stop s

/-- What `deflateEnd` returns is what `finish` returns, and is not kept. -/
def finish (s : ZlibOutputStream) : Code ZlibOutputStream :=
  if s.zerror ≠ .Z_OK then
    return s
  else do
    let s ← loop .outOfFuel finishRound (fun s => s.answers.length) s
    return { s with zerror := .Z_STREAM_END }

inductive Event where
  | string (str : StringPiece)
  | buffer (input : Buffer)
  | finish

def step (s : ZlibOutputStream) : Event → Code ZlibOutputStream
  | .string str => s.writeString str
  | .buffer input => s.writeBuffer input
  | .finish => s.finish

/-! ### The calls of deflate

The calls that a write makes are computed from sizes and answers alone. -/

/-- The sizes that decide how much room `compress` gives to `deflate`. -/
structure Room where
  writable : ℕ
  prependable : ℕ
  bufferSize : ℕ
  deriving DecidableEq, Repr

/-- `ensureWritableBytes(bufferSize_)`. -/
def Room.ensured (r : Room) : Room :=
  if r.bufferSize ≤ r.writable then r
  else if r.writable + r.prependable < r.bufferSize + kCheapPrepend then
    { r with writable := r.bufferSize }
  else
    { r with
      writable := r.writable + r.prependable - kCheapPrepend
      prependable := kCheapPrepend }

/-- `deflate` has put out `n` bytes. -/
def Room.called (r : Room) (n : ℕ) : Room :=
  let writable := toUInt r.ensured.writable - n
  { writable
    prependable := r.ensured.prependable
    bufferSize :=
      if writable = 0 ∧ r.bufferSize < 65536 then r.bufferSize * 2 else r.bufferSize }

/-- A call of `deflate` with so many bytes to write to. -/
structure Call where
  writable : ℕ
  answer : Answer
  deriving DecidableEq, Repr

/-- The number of bytes is not cut off by `static_cast<int>`. -/
abbrev Call.Fits (c : Call) : Prop := c.writable < 2 ^ 32

/-- The calls of a loop that goes on while there is no error and `more` holds of `avail_in`. -/
def calls (more : ℕ → Bool) : Room → ℕ → List Answer → List Call
  | _, _, [] => []
  | r, availIn, a :: answers =>
    if more availIn then
      ⟨r.ensured.writable, a⟩ ::
        if a.error = .Z_OK then
          calls more (r.called a.produced.length) (availIn - a.consumed) answers
        else []
    else []

/-- What the calls consume. -/
def taken (cs : List Call) : ℕ := (cs.map (·.answer.consumed)).sum

def room (s : ZlibOutputStream) : Room :=
  ⟨s.output.writableBytes, s.output.prependableBytes, s.bufferSize⟩

def stringCalls (s : ZlibOutputStream) (str : StringPiece) : List Call :=
  calls (fun availIn => 0 < availIn) s.room str.1.length s.answers

/-- A buffer is compressed with one call at most. -/
def bufferCalls (s : ZlibOutputStream) (input : Buffer) : List Call :=
  (calls (fun availIn => 0 < availIn) s.room (toUInt input.readableBytes) s.answers).take 1

def finishCalls (s : ZlibOutputStream) : List Call :=
  calls (fun _ => true) s.room s.availIn s.answers

/-- A string is written while `next_in` is null, and nothing of it is consumed if there is an error.
A buffer is not longer than `avail_in` can say. `finish` consumes nothing. In each call, all of the
room in the output fits into `avail_out`. -/
def Once (s : ZlibOutputStream) : Event → Prop
  | .string str => s.zerror = .Z_OK → s.nextIn = none ∧ (∀ c ∈ s.stringCalls str, c.Fits) ∧
      ((∃ c ∈ s.stringCalls str, c.answer.error ≠ .Z_OK) →
        ∀ c ∈ s.stringCalls str, c.answer.consumed = 0)
  | .buffer input => s.zerror = .Z_OK →
      input.readableBytes < 2 ^ 32 ∧ ∀ c ∈ s.bufferCalls input, c.Fits
  | .finish => s.zerror = .Z_OK →
      (∀ c ∈ s.finishCalls, c.Fits) ∧ ∀ c ∈ s.finishCalls, c.answer.consumed = 0

instance (s : ZlibOutputStream) : ∀ e, Decidable (s.Once e)
  | .string _ => by unfold Once; infer_instance
  | .buffer _ => by unfold Once; infer_instance
  | .finish => by unfold Once; infer_instance

/-! ### What a call does to the output -/

end ZlibOutputStream

lemma Buffer.makeSpace_room {b : Buffer} {len : ℕ} (h : b.writableBytes < len) :
    Yields (b.makeSpace len h) fun b' => b'.readable = b.readable ∧ len ≤ b'.writableBytes ∧
      ZlibOutputStream.Room.mk b'.writableBytes b'.prependableBytes len =
        ZlibOutputStream.Room.ensured ⟨b.writableBytes, b.prependableBytes, len⟩ := by
  obtain ⟨b', hb', hread, hwritable⟩ := makeSpace_spec h
  refine ⟨b', hb', hread, hwritable, ?_⟩
  have hlength := (length_makeSpace h).of_ok hb'
  have hw := b.writer_le_size
  have hr := b.reader_le_writer
  rw [ZlibOutputStream.Room.ensured, if_neg (not_le.mpr h)]
  unfold makeSpace at hb'
  split at hb'
  · next hgrow =>
    cases hb'
    rw [if_pos hgrow] at hlength ⊢
    rw [writableBytes, hlength]
    simp [prependableBytes]
  · next hmove =>
    split at hb'
    · obtain ⟨-, -, hb'⟩ := bind_eq_ok.mp hb'
      cases hb'
      rw [if_neg hmove] at hlength ⊢
      rw [writableBytes, hlength]
      simp only [prependableBytes, writableBytes, readableBytes, ZlibOutputStream.Room.mk.injEq,
        and_true]
      omega
    · cases hb'

lemma Buffer.ensureWritableBytes_room (b : Buffer) (len : ℕ) :
    Yields (b.ensureWritableBytes len) fun b' => b'.1.readable = b.readable ∧
      ZlibOutputStream.Room.mk b'.1.writableBytes b'.1.prependableBytes len =
        ZlibOutputStream.Room.ensured ⟨b.writableBytes, b.prependableBytes, len⟩ := by
  unfold Buffer.ensureWritableBytes
  by_cases h : b.writableBytes < len
  · obtain ⟨b', hb', hread, hwritable, hroom⟩ := makeSpace_room h
    refine ⟨⟨b', hwritable⟩, ?_, hread, hroom⟩
    rw [dif_pos h, hb', ok_bind]
    exact dif_pos hwritable
  · refine ⟨⟨b, not_lt.mp h⟩, ?_, rfl, (if_pos (not_lt.mp h)).symm⟩
    rw [dif_neg h]
    exact dif_pos (not_lt.mp h)

lemma Buffer.writableBytes_copyIn {b : Buffer} {data : List UInt8}
    (h : data.length ≤ b.writableBytes) : (b.copyIn data h).writableBytes = b.writableBytes := by
  have hw := b.writer_le_size
  have hsize : b.writerIndex + data.length ≤ b.buffer.length := by
    unfold writableBytes at h
    omega
  rw [writableBytes, copyIn, length_copyAt hsize, writableBytes]

lemma Buffer.hasWritten_sizes {b : Buffer} {n : ℕ} (h : n ≤ b.writableBytes) :
    Yields (b.hasWritten n) fun b' => b'.readable.length = b.readable.length + n ∧
      b'.writableBytes = b.writableBytes - n ∧ b'.prependableBytes = b.prependableBytes := by
  refine ⟨_, dif_pos h, ?_, ?_, rfl⟩
  · have hr := b.reader_le_writer
    simp only [length_readable, readableBytes]
    omega
  · simp only [writableBytes]
    omega

namespace ZlibOutputStream

variable {out : List UInt8} {s t u : ZlibOutputStream} {cs cs' : List Call}

lemma taken_append : taken (cs ++ cs') = taken cs + taken cs' := by
  simp [taken]

lemma taken_eq_zero : taken cs = 0 ↔ ∀ c ∈ cs, c.answer.consumed = 0 := by
  simp [taken, List.sum_eq_zero_iff]

/-- How much longer the output is than what `deflate` has produced. -/
def excess (s : ZlibOutputStream) : ℤ := s.output.readable.length - s.produced.length

/-- What calls of `deflate` do to the output: they append what `deflate` produced, and more if its
room was cut off. -/
structure Puts (s : ZlibOutputStream) (cs : List Call) (t : ZlibOutputStream) : Prop where
  fits : (∀ c ∈ cs, c.Fits) →
    ∀ out, s.output.readable = out ++ s.produced → t.output.readable = out ++ t.produced
  exceeds : (∃ c ∈ cs, ¬ c.Fits) → s.excess < t.excess
  grows : s.excess ≤ t.excess

lemma Puts.refl (s : ZlibOutputStream) : Puts s [] s :=
  ⟨fun _ _ h => h, by simp, le_rfl⟩

lemma Puts.trans (h : Puts s cs t) (h' : Puts t cs' u) : Puts s (cs ++ cs') u := by
  refine ⟨fun hfits out hout => ?_, ?_, h.grows.trans h'.grows⟩
  · refine h'.fits (fun c hc => hfits c (List.mem_append_right _ hc)) out ?_
    exact h.fits (fun c hc => hfits c (List.mem_append_left _ hc)) out hout
  · rintro ⟨c, hc, hnot⟩
    rcases List.mem_append.mp hc with hc | hc
    · exact (h.exceeds ⟨c, hc, hnot⟩).trans_le h'.grows
    · exact h.grows.trans_lt (h'.exceeds ⟨c, hc, hnot⟩)

/-- What calls of `deflate` do to the input. -/
structure Takes (s : ZlibOutputStream) (cs : List Call) (t : ZlibOutputStream) : Prop where
  le : taken cs ≤ s.availIn
  nextIn : t.nextIn = s.nextIn.map (·.drop (taken cs))
  availIn : t.availIn = s.availIn - taken cs
  consumed : t.consumed = s.consumed ++ s.input.take (taken cs)
  accepted : t.accepted = s.accepted

lemma Takes.refl (s : ZlibOutputStream) : Takes s [] s :=
  ⟨Nat.zero_le _, by simp [taken], rfl, by simp [taken], rfl⟩

lemma Takes.trans (h : Takes s cs t) (h' : Takes t cs' u) : Takes s (cs ++ cs') u := by
  have hle := h.le
  have hle' := h'.le
  rw [h.availIn] at hle'
  have hinput : t.input = s.input.drop (taken cs) := by
    rw [input, h.nextIn, input]
    cases s.nextIn with
    | none => simp
    | some l => rfl
  refine ⟨?_, ?_, ?_, ?_, h'.accepted.trans h.accepted⟩
  · rw [taken_append]
    omega
  · rw [h'.nextIn, h.nextIn, Option.map_map, taken_append]
    congr 1
    funext l
    exact List.drop_drop ..
  · rw [h'.availIn, h.availIn, taken_append, Nat.sub_sub]
  · rw [h'.consumed, h.consumed, hinput, List.append_assoc, taken_append, List.take_add]

/-- What a call of `compress` does. -/
structure Compressed (s : ZlibOutputStream) (a : Answer) (answers : List Answer)
    (t : ZlibOutputStream) : Prop where
  answers : s.answers = a :: answers ∧ t.answers = answers
  zerror : t.zerror = a.error
  room : t.room = s.room.called a.produced.length
  takes : Takes s [⟨s.room.ensured.writable, a⟩] t
  puts : Puts s [⟨s.room.ensured.writable, a⟩] t

/-- What `deflate` has written, and the bytes that are counted as written when its room has been cut
off. -/
lemma hasWritten_spec {b : Buffer} {data : List UInt8} (h : data.length ≤ toUInt b.writableBytes) :
    Yields ((b.copyIn data (h.trans (Nat.mod_le ..))).hasWritten
        (b.writableBytes - (toUInt b.writableBytes - data.length))) fun b' =>
      b'.writableBytes = toUInt b.writableBytes - data.length ∧
      b'.prependableBytes = b.prependableBytes ∧
      (b.writableBytes < 2 ^ 32 → b'.readable = b.readable ++ data) ∧
      (2 ^ 32 ≤ b.writableBytes → b.readable.length + data.length < b'.readable.length) := by
  have hle : toUInt b.writableBytes ≤ b.writableBytes := Nat.mod_le ..
  have hcopy := Buffer.writableBytes_copyIn (h.trans hle)
  obtain ⟨b', hb', hlength, hwritable, hprepend⟩ :=
    Buffer.hasWritten_sizes (b := b.copyIn data (h.trans hle))
      (n := b.writableBytes - (toUInt b.writableBytes - data.length)) (by omega)
  refine ⟨b', hb', by omega, hprepend, fun hlt => ?_, fun hge => ?_⟩
  · have huint : toUInt b.writableBytes = b.writableBytes := Nat.mod_eq_of_lt hlt
    obtain ⟨b₁, hb₁, hread⟩ := Buffer.copyIn_hasWritten_spec (h.trans hle)
    have hcount : b.writableBytes - (toUInt b.writableBytes - data.length) = data.length := by
      omega
    rw [hcount, hb₁] at hb'
    cases hb'
    exact hread
  · have hcut : toUInt b.writableBytes < 2 ^ 32 := Nat.mod_lt _ (by decide)
    have hread : (b.copyIn data (h.trans hle)).readable.length = b.readable.length := by
      simp [Buffer.length_readable, Buffer.readableBytes, Buffer.copyIn]
    omega

lemma compress_spec (s : ZlibOutputStream) :
    Safe s.compress fun t => ∃ a answers, Compressed s a answers t := by
  obtain ⟨⟨output, hwritable⟩, hensure, hread, hroom⟩ :=
    s.output.ensureWritableBytes_room s.bufferSize
  replace hroom : s.room.ensured = ⟨output.writableBytes, output.prependableBytes, s.bufferSize⟩ :=
    hroom.symm
  rw [compress, hensure, ok_bind]
  dsimp only
  split
  · trivial
  · next a answers hanswers =>
    split
    · next hanswer =>
      have hfit : a.produced.length ≤ output.writableBytes := hanswer.2.trans (Nat.mod_le ..)
      obtain ⟨output', houtput', hwritable', hprepend, hkeeps, hexceeds⟩ :=
        hasWritten_spec hanswer.2
      rw [deflate, Buffer.writableBytes_copyIn hfit, houtput', ok_bind]
      dsimp only at hread hkeeps hexceeds
      rw [hread] at hkeeps hexceeds
      have hfits : Call.Fits ⟨s.room.ensured.writable, a⟩ ↔ output.writableBytes < 2 ^ 32 := by
        rw [Call.Fits, hroom]
      refine ⟨a, answers, ⟨hanswers, rfl⟩, rfl, ?_, ⟨?_, rfl, rfl, rfl, rfl⟩, ?_, ?_, ?_⟩
      · simp only [Room.called, hroom]
        rw [← hwritable', ← hprepend]
        rfl
      · simpa [taken] using hanswer.1
      · intro hall out hout
        dsimp only
        rw [hkeeps (hfits.mp (hall _ (List.mem_singleton.mpr rfl))), hout, List.append_assoc]
      · rintro ⟨c, hc, hnot⟩
        rw [List.mem_singleton.mp hc, hfits, not_lt] at hnot
        have hlt := hexceeds hnot
        simp only [excess, List.length_append]
        omega
      · by_cases hlt : output.writableBytes < 2 ^ 32
        · simp only [excess, hkeeps hlt, List.length_append]
          omega
        · have hgt := hexceeds (not_lt.mp hlt)
          simp only [excess, List.length_append]
          omega
    · trivial

lemma Compressed.answers_lt {a : Answer} {answers : List Answer} (h : Compressed s a answers t) :
    t.answers.length < s.answers.length := by
  rw [h.answers.1, h.answers.2]
  exact Nat.lt_succ_self _

/-! ### The loops -/

/-- A loop that calls `compress` while there is no error and `more` holds of `avail_in`. -/
lemma compressLoop_spec (body : ZlibOutputStream → Code (Round ZlibOutputStream))
    (more : ℕ → Bool)
    (hbody : ∀ s, body s =
      if more s.availIn ∧ s.zerror = .Z_OK then .again <$> s.compress else return .stop s)
    (hok : s.zerror = .Z_OK) :
    Safe (loop .outOfFuel body (fun s => s.answers.length) s) fun t =>
      Takes s (calls more s.room s.availIn s.answers) t ∧
      Puts s (calls more s.room s.availIn s.answers) t ∧
      (t.zerror = .Z_OK ↔
        ∀ c ∈ calls more s.room s.availIn s.answers, c.answer.error = .Z_OK) ∧
      (t.zerror = .Z_OK → ¬ more t.availIn) := by
  have hμ : ∀ s t, body s = .ok (.again t) → t.answers.length < s.answers.length := by
    intro s t ht
    rw [hbody] at ht
    split at ht
    · obtain ⟨u, hu, hround⟩ := map_eq_ok.mp ht
      cases hround
      obtain ⟨a, answers, hc⟩ := (compress_spec s).of_ok hu
      exact hc.answers_lt
    · cases ht
  induction hanswers : s.answers generalizing s with
  | nil =>
    rw [loop_eq hμ, hbody, safe_bind]
    split
    · rw [safe_map]
      refine (compress_spec s).mono ?_
      rintro t ⟨a, answers, hc⟩
      rw [hc.answers.1] at hanswers
      cases hanswers
    · next hstop =>
      exact ⟨.refl s, .refl s, by simp [hok, calls], fun _ hmore => hstop ⟨hmore, hok⟩⟩
  | cons a answers ih =>
    rw [loop_eq hμ, hbody, safe_bind]
    by_cases hmore : more s.availIn
    · rw [if_pos ⟨hmore, hok⟩, safe_map]
      refine (compress_spec s).mono ?_
      rintro t ⟨a', answers', hc⟩
      obtain ⟨rfl, rfl⟩ := List.cons.inj (hanswers.symm.trans hc.answers.1)
      have havail : t.availIn = s.availIn - a.consumed := by
        simpa [taken] using hc.takes.availIn
      simp only [calls, hmore, if_true]
      by_cases herror : a.error = .Z_OK
      · rw [if_pos herror, ← hc.room, ← havail]
        refine (ih (hc.zerror.trans herror) hc.answers.2).mono ?_
        rintro u ⟨htakes, hputs, hzerror, hstop⟩
        refine ⟨hc.takes.trans htakes, hc.puts.trans hputs, ?_, hstop⟩
        rw [hzerror, List.forall_mem_cons]
        exact (and_iff_right herror).symm
      · have hne : t.zerror ≠ .Z_OK := hc.zerror ▸ herror
        rw [Round.next, loop_eq hμ, hbody, if_neg fun hgo => hne hgo.2, if_neg herror]
        refine ⟨hc.takes, hc.puts, iff_of_false hne ?_, fun hok' => absurd hok' hne⟩
        exact fun hall => herror (hall _ (List.mem_singleton.mpr rfl))
    · rw [if_neg fun hgo => hmore hgo.1]
      refine ⟨?_, ?_, ?_, fun _ => hmore⟩
      · simpa [calls, hmore] using Takes.refl s
      · simpa [calls, hmore] using Puts.refl s
      · simp [calls, hmore, hok]

/-! ### The writes -/

lemma writeString_spec (hok : s.zerror = .Z_OK) (hnext : s.nextIn = none) (havail : s.availIn = 0)
    (str : StringPiece) :
    Safe (s.writeString str) fun t =>
      Puts s (s.stringCalls str) t ∧ taken (s.stringCalls str) ≤ str.1.length ∧
      t.consumed = s.consumed ++ str.1.take (taken (s.stringCalls str)) ∧
      (t.zerror = .Z_OK ↔ ∀ c ∈ s.stringCalls str, c.answer.error = .Z_OK) ∧
      (t.zerror = .Z_OK → taken (s.stringCalls str) = str.1.length ∧ t.nextIn = none ∧
        t.availIn = 0 ∧ t.accepted = s.accepted ++ str.1) ∧
      (t.zerror ≠ .Z_OK → t.accepted = s.accepted) := by
  rw [writeString, if_neg (not_not.mpr hok), check_of ⟨hnext, havail⟩, ok_bind, safe_bind]
  have hset : (s.setInput str.1 str.1.length).zerror = .Z_OK := hok
  refine (compressLoop_spec writeRound (fun availIn => 0 < availIn) (by simp [writeRound])
    hset).mono ?_
  rintro t ⟨htakes, hputs, hzerror, hstop⟩
  change Takes _ (s.stringCalls str) t at htakes
  change Puts _ (s.stringCalls str) t at hputs
  replace hputs : Puts s (s.stringCalls str) t := { hputs with }
  obtain ⟨hle, hnext', havail', hconsumed, haccepted⟩ := htakes
  rw [setInput] at hle hnext' havail' hconsumed haccepted
  dsimp only [input, Option.getD_some, Option.map_some] at hle hnext' havail' hconsumed haccepted ⊢
  have hend : t.availIn = 0 → t.nextIn = some [] := fun hzero => by
    rw [hnext', List.drop_eq_nil_of_le (by omega)]
  by_cases hok' : t.zerror = .Z_OK
  · have hzero : t.availIn = 0 := by simpa using hstop hok'
    rw [if_pos hok', if_pos hzero, check_of (hend hzero), ok_bind]
    exact ⟨{ hputs with }, hle, hconsumed, hzerror,
      fun _ => ⟨by omega, rfl, hzero, congrArg (· ++ str.1) haccepted⟩, absurd hok'⟩
  · rw [if_neg hok']
    split
    · next hzero =>
      rw [check_of (hend hzero), ok_bind]
      exact ⟨{ hputs with }, hle, hconsumed, hzerror, (absurd · hok'), fun _ => haccepted⟩
    · exact ⟨hputs, hle, hconsumed, hzerror, (absurd · hok'), fun _ => haccepted⟩

/-- Otherwise the assertion at its start fails. -/
lemma nextIn_of_writeString (hok : s.zerror = .Z_OK) {str : StringPiece}
    (h : s.writeString str = .ok t) : s.nextIn = none ∧ s.availIn = 0 := by
  rw [writeString, if_neg (not_not.mpr hok), bind_eq_ok] at h
  obtain ⟨_, hcheck, _⟩ := h
  exact check_eq_ok.mp hcheck

lemma compressOnce_spec (hok : s.zerror = .Z_OK) :
    Safe s.compressOnce fun t =>
      Takes s ((calls (fun availIn => 0 < availIn) s.room s.availIn s.answers).take 1) t ∧
      Puts s ((calls (fun availIn => 0 < availIn) s.room s.availIn s.answers).take 1) t := by
  rw [compressOnce]
  split
  · next hgo =>
    refine (compress_spec s).mono ?_
    rintro t ⟨a, answers, hc⟩
    simp only [hc.answers.1, calls, hgo.1, decide_true, if_true, List.take_succ_cons,
      List.take_zero]
    exact ⟨hc.takes, hc.puts⟩
  · next hstop =>
    have hzero : ¬ 0 < s.availIn := fun hpos => hstop ⟨hpos, hok⟩
    have hnil : calls (fun availIn => 0 < availIn) s.room s.availIn s.answers = [] := by
      cases s.answers with
      | nil => rfl
      | cons a answers => simp [calls, hzero]
    rw [hnil]
    exact ⟨.refl s, .refl s⟩

lemma writeBuffer_spec (hok : s.zerror = .Z_OK) (input : Buffer) :
    Safe (s.writeBuffer input) fun t =>
      Puts s (s.bufferCalls input) t ∧
      taken (s.bufferCalls input) ≤ toUInt input.readableBytes ∧
      t.nextIn = some (input.readable.drop (taken (s.bufferCalls input))) ∧
      t.availIn = toUInt input.readableBytes - taken (s.bufferCalls input) ∧
      t.consumed = s.consumed ++ input.readable.take (taken (s.bufferCalls input)) ∧
      t.accepted = s.accepted ++ input.readable.take (input.readableBytes - t.availIn) := by
  rw [writeBuffer, if_neg (not_not.mpr hok), safe_bind]
  refine (compressOnce_spec (s := s.setInput input.readable (toUInt input.readableBytes))
    hok).mono ?_
  rintro t ⟨htakes, hputs⟩
  change Takes _ (s.bufferCalls input) t at htakes
  change Puts _ (s.bufferCalls input) t at hputs
  obtain ⟨hle, hnext, havail, hconsumed, haccepted⟩ := htakes
  have hbound : input.readableBytes - t.availIn ≤ input.readable.length := by
    rw [Buffer.length_readable]
    exact Nat.sub_le ..
  obtain ⟨input', hretrieve, -⟩ := Buffer.retrieve_spec hbound
  dsimp only
  rw [hretrieve, ok_bind]
  exact ⟨{ hputs with }, hle, hnext, havail, hconsumed,
    congrArg (· ++ input.readable.take (input.readableBytes - t.availIn)) haccepted⟩

lemma finish_spec (hok : s.zerror = .Z_OK) :
    Safe s.finish fun t =>
      Puts s s.finishCalls t ∧ taken s.finishCalls ≤ s.availIn ∧ t.zerror ≠ .Z_OK ∧
      t.consumed = s.consumed ++ s.input.take (taken s.finishCalls) ∧ t.accepted = s.accepted := by
  rw [finish, if_neg (not_not.mpr hok), safe_bind]
  refine (compressLoop_spec finishRound (fun _ => true) (by simp [finishRound]) hok).mono ?_
  rintro t ⟨htakes, hputs, -⟩
  exact ⟨{ hputs with }, htakes.le, by simp, htakes.consumed, htakes.accepted⟩

/-! ### Every byte once -/

/-- Bytes were consumed as they were accepted, and are in the output as they were produced. -/
def Good (out : List UInt8) (s : ZlibOutputStream) : Prop :=
  s.consumed = s.accepted ∧ s.output.readable = out ++ s.produced

structure Inv (out : List UInt8) (s : ZlibOutputStream) : Prop where
  consumed : s.consumed = s.accepted
  output : s.output.readable = out ++ s.produced
  availIn : s.zerror = .Z_OK → s.availIn ≤ s.input.length

/-- What no later step makes good: bytes in the output that were not produced, bytes consumed that
were not accepted when all is over, and so many bytes retrieved that `finish` cannot consume them
any more. -/
inductive Spoiled (out : List UInt8) (s : ZlibOutputStream) : Prop where
  | output (h : (out.length : ℤ) < s.excess)
  | stopped (hzerror : s.zerror ≠ .Z_OK) (h : s.consumed ≠ s.accepted)
  | retrieved (hnext : s.nextIn ≠ none) (havail : s.availIn < 2 ^ 32)
      (h : s.consumed.length + 2 ^ 32 ≤ s.accepted.length)

variable {e : Event}

lemma Spoiled.not_good (h : Spoiled out s) : ¬ Good out s := by
  rintro ⟨hconsumed, houtput⟩
  cases h with
  | output h =>
    rw [excess, houtput, List.length_append] at h
    omega
  | stopped hzerror h => exact h hconsumed
  | retrieved hnext havail h =>
    rw [hconsumed] at h
    omega

lemma Inv.excess_eq (h : Inv out s) : s.excess = out.length := by
  rw [excess, h.output, List.length_append]
  omega

lemma Inv.availIn_of_null (h : Inv out s) (hok : s.zerror = .Z_OK) (hnext : s.nextIn = none) :
    s.availIn = 0 := by
  simpa [input, hnext] using h.availIn hok

/-- After an error nothing is done. -/
lemma step_of_error (h : s.zerror ≠ .Z_OK) (e : Event) : s.step e = .ok s := by
  cases e with
  | string str => exact if_pos h
  | buffer input => exact if_pos h
  | finish => exact if_pos h

lemma Inv.step (h : Inv out s) (honce : s.Once e) : Safe (s.step e) (Inv out) := by
  by_cases hok : s.zerror = .Z_OK
  · cases e with
    | string str =>
      obtain ⟨hnext, hfits, hrefused⟩ := honce hok
      refine (writeString_spec hok hnext (h.availIn_of_null hok hnext) str).mono ?_
      rintro t ⟨hputs, -, hconsumed, hzerror, haccepts, hrefuses⟩
      refine ⟨?_, hputs.fits hfits out h.output, fun hok' => ?_⟩
      · by_cases hok' : t.zerror = .Z_OK
        · obtain ⟨hall, -, -, haccepted⟩ := haccepts hok'
          rw [hconsumed, haccepted, hall, List.take_length, h.consumed]
        · have herror : ∃ c ∈ s.stringCalls str, c.answer.error ≠ .Z_OK := by
            by_contra hno
            push Not at hno
            exact hok' (hzerror.mpr hno)
          rw [hconsumed, taken_eq_zero.mpr (hrefused herror), hrefuses hok', h.consumed]
          simp
      · rw [(haccepts hok').2.2.1]
        exact Nat.zero_le _
    | buffer input =>
      obtain ⟨hsize, hfits⟩ := honce hok
      have huint : toUInt input.readableBytes = input.readableBytes := Nat.mod_eq_of_lt hsize
      refine (writeBuffer_spec hok input).mono ?_
      rintro t ⟨hputs, hle, hnext, havail, hconsumed, haccepted⟩
      rw [huint] at hle havail
      refine ⟨?_, hputs.fits hfits out h.output, fun _ => ?_⟩
      · rw [hconsumed, haccepted, havail, Nat.sub_sub_self hle, h.consumed]
      · rw [ZlibOutputStream.input, hnext, havail]
        simp [Buffer.length_readable]
    | finish =>
      obtain ⟨hfits, hnone⟩ := honce hok
      refine (finish_spec hok).mono ?_
      rintro t ⟨hputs, -, hzerror, hconsumed, haccepted⟩
      refine ⟨?_, hputs.fits hfits out h.output, fun hok' => absurd hok' hzerror⟩
      rw [hconsumed, haccepted, taken_eq_zero.mpr hnone, h.consumed]
      simp
  · rw [step_of_error hok]
    exact h

/-- Bytes that are taken show. -/
lemma append_take_ne {l l' : List UInt8} {k : ℕ} (hk : k ≠ 0) (hle : k ≤ l'.length) :
    l ++ l'.take k ≠ l := by
  intro heq
  have hlen := congrArg List.length heq
  rw [List.length_append, List.length_take] at hlen
  omega

lemma Inv.spoiled (h : Inv out s) (hnot : ¬ s.Once e) (ht : s.step e = .ok t) :
    Spoiled out t := by
  have hexceeds {cs : List Call} (hputs : Puts s cs t) (hcut : ¬ ∀ c ∈ cs, c.Fits) :
      Spoiled out t := by
    push Not at hcut
    exact .output (h.excess_eq ▸ hputs.exceeds (by simpa using hcut))
  cases e with
  | string str =>
    simp only [Once, Classical.not_imp] at hnot
    obtain ⟨hok, hnot⟩ := hnot
    obtain ⟨hnext, havail⟩ := nextIn_of_writeString hok ht
    obtain ⟨hputs, hle, hconsumed, hzerror, -, hrefuses⟩ :=
      (writeString_spec hok hnext havail str).of_ok ht
    by_cases hfits : ∀ c ∈ s.stringCalls str, c.Fits
    · obtain ⟨⟨c, hc, herror⟩, htaken⟩ :=
        Classical.not_imp.mp fun himp => hnot ⟨hnext, hfits, himp⟩
      have hne : t.zerror ≠ .Z_OK := fun hok' => herror (hzerror.mp hok' c hc)
      refine .stopped hne ?_
      rw [hconsumed, hrefuses hne, ← h.consumed]
      exact append_take_ne (mt taken_eq_zero.mp htaken) hle
    · exact hexceeds hputs hfits
  | buffer input =>
    simp only [Once, Classical.not_imp] at hnot
    obtain ⟨hok, hnot⟩ := hnot
    obtain ⟨hputs, hle, hnext, havail, hconsumed, haccepted⟩ :=
      (writeBuffer_spec hok input).of_ok ht
    by_cases hfits : ∀ c ∈ s.bufferCalls input, c.Fits
    · have hsize : 2 ^ 32 ≤ input.readableBytes := by
        by_contra hlt
        exact hnot ⟨not_le.mp hlt, hfits⟩
      have hcut : toUInt input.readableBytes < 2 ^ 32 := Nat.mod_lt _ (by decide)
      have hmod : toUInt input.readableBytes + 2 ^ 32 ≤ input.readableBytes := by
        unfold toUInt
        omega
      refine .retrieved (by simp [hnext]) (by omega) ?_
      rw [hconsumed, haccepted, havail, h.consumed]
      simp only [List.length_append, List.length_take, Buffer.length_readable]
      omega
    · exact hexceeds hputs hfits
  | finish =>
    simp only [Once, Classical.not_imp] at hnot
    obtain ⟨hok, hnot⟩ := hnot
    obtain ⟨hputs, hle, hzerror, hconsumed, haccepted⟩ := (finish_spec hok).of_ok ht
    by_cases hfits : ∀ c ∈ s.finishCalls, c.Fits
    · have htaken : ¬ ∀ c ∈ s.finishCalls, c.answer.consumed = 0 := fun hall => hnot ⟨hfits, hall⟩
      refine .stopped hzerror ?_
      rw [hconsumed, haccepted, ← h.consumed]
      exact append_take_ne (mt taken_eq_zero.mp htaken) (hle.trans (h.availIn hok))
    · exact hexceeds hputs hfits

/-- A step does not shorten the output. -/
lemma excess_le_of_step (hok : s.zerror = .Z_OK) (ht : s.step e = .ok t) : s.excess ≤ t.excess := by
  cases e with
  | string str =>
    obtain ⟨hnext, havail⟩ := nextIn_of_writeString hok ht
    exact ((writeString_spec hok hnext havail str).of_ok ht).1.grows
  | buffer input => exact ((writeBuffer_spec hok input).of_ok ht).1.grows
  | finish => exact ((finish_spec hok).of_ok ht).1.grows

lemma Spoiled.step (h : Spoiled out s) (ht : s.step e = .ok t) : Spoiled out t := by
  by_cases hok : s.zerror = .Z_OK
  · cases h with
    | output h => exact .output (h.trans_le (excess_le_of_step hok ht))
    | stopped hzerror h => exact absurd hok hzerror
    | retrieved hnext havail h =>
      cases e with
      | string str => exact absurd (nextIn_of_writeString hok ht).1 hnext
      | buffer input =>
        obtain ⟨-, hle, hnext', havail', hconsumed, haccepted⟩ :=
          (writeBuffer_spec hok input).of_ok ht
        have hcut : toUInt input.readableBytes < 2 ^ 32 := Nat.mod_lt _ (by decide)
        have hmod : toUInt input.readableBytes ≤ input.readableBytes := Nat.mod_le ..
        refine .retrieved (by simp [hnext']) (by omega) ?_
        rw [hconsumed, haccepted, havail']
        simp only [List.length_append, List.length_take, Buffer.length_readable]
        omega
      | finish =>
        obtain ⟨-, hle, hzerror, hconsumed, haccepted⟩ := (finish_spec hok).of_ok ht
        refine .stopped hzerror fun heq => ?_
        have hlen := congrArg List.length (hconsumed.symm.trans (heq.trans haccepted))
        rw [List.length_append, List.length_take] at hlen
        omega
  · rw [step_of_error hok] at ht
    cases ht
    exact h

/-- In every run in which each call of `deflate` is answered, no assertion fails, each byte is
compressed once and the output is what `deflate` produced if and only if every step is `Once`. -/
theorem compresses_once_iff (output : Buffer) (init : ZError) (answers : List Answer)
    (es : List Event) (hrun : Enabled (run step (new output init answers) es)) :
    Yields (run step (new output init answers) es) (fun s =>
        s.consumed = s.accepted ∧ s.output.readable = output.readable ++ s.produced) ↔
      Along step Once (new output init answers) es := by
  refine run_yields_iff (I := Inv output.readable) (B := Spoiled output.readable)
    (fun s e hs honce => hs.step honce) (fun s e t hs hnot ht => hs.spoiled hnot ht)
    (fun s e t hs ht => hs.step ht) (fun s hs => ⟨hs.consumed, hs.output⟩)
    (fun s hs => hs.not_good) ⟨rfl, ?_, fun _ => Nat.zero_le _⟩ hrun
  exact (List.append_nil _).symm

/-- A string in two calls of `deflate`, of which the first consumes two bytes, and `finish`. -/
theorem compresses_once_iff_string :
    let answers : List Answer :=
      [⟨2, [], .Z_OK⟩, ⟨1, [120, 156], .Z_OK⟩, ⟨0, [3, 0], .Z_STREAM_END⟩]
    let es : List Event := [.string ⟨[65, 66, 67], by decide⟩, .finish]
    Along step Once (new .new .Z_OK answers) es ∧
      Yields (run step (new .new .Z_OK answers) es) fun s =>
        (s.consumed = [65, 66, 67] ∧ s.output.readable = [120, 156, 3, 0]) ∧
        s.consumed = s.accepted ∧ s.output.readable = (Buffer.new).readable ++ s.produced := by
  intro answers es
  have honce : Along step Once (new .new .Z_OK answers) es := by decide +kernel
  have hrun : Yields (run step (new .new .Z_OK answers) es) fun s =>
      s.consumed = [65, 66, 67] ∧ s.output.readable = [120, 156, 3, 0] := by decide +kernel
  obtain ⟨s, hs, hcontents⟩ := hrun
  have henabled : Enabled (run step (new .new .Z_OK answers) es) := hs ▸ enabled_ok s
  obtain ⟨t, ht, hgood⟩ := (compresses_once_iff .new .Z_OK answers es henabled).mpr honce
  cases hs.symm.trans ht
  exact ⟨honce, s, hs, hcontents, hgood⟩

/-- A buffer of two bytes and then a string; and the same buffer, of which `deflate` consumes one
byte, and then `finish`. -/
theorem not_compresses_once_buffer :
    let input : Buffer := ⟨List.replicate 8 0 ++ [65, 66], 8, 10, by decide, by decide, by decide⟩
    run step (new .new .Z_OK [⟨2, [], .Z_OK⟩]) [.buffer input, .string ⟨[67], by decide⟩] =
        .error (.failed .zlibNextIn) ∧
      Yields (run step (new .new .Z_OK [⟨1, [], .Z_OK⟩, ⟨1, [120], .Z_STREAM_END⟩])
          [.buffer input, .finish]) fun s =>
        s.consumed = [65, 66] ∧ s.accepted = [65] :=
  ⟨failure_eq_some.mp (by decide +kernel), by decide +kernel⟩

end ZlibOutputStream

end Muduo
