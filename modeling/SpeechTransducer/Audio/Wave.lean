import SpeechTransducer.Number.Binary
import SpeechTransducer.Storage.Library

/-!
Audio files: the samples of one channel in a RIFF container, read as 16-bit samples, and their
division into pieces of equal length.
-/

namespace SpeechTransducer.Audio.Wave

/-- A number of several bytes, the lowest first. -/
def number : List UInt8 → Nat
  | [] => 0
  | b :: bs => b.toNat + 256 * number bs

/-- The 16-bit sample of two bytes, the lower one first. -/
def sample (low high : UInt8) : Int :=
  let n : Int := low.toNat + 256 * high.toNat
  if n < 32768 then n else n - 65536

/-- The 16-bit samples of some bytes. A single byte at the end is left over. -/
def samples : List UInt8 → List Int
  | low :: high :: rest => sample low high :: samples rest
  | _ => []

/-- The ASCII codes of a tag. -/
def tag (s : String) : List UInt8 := s.toList.map fun c => c.toNat.toUInt8

/-- What the format chunk says: the kind of encoding, channels, rate, the bytes of a block with one
sample of every channel, and the bits of a sample. -/
structure Format where
  encoding : Nat
  channels : Nat
  rate : Nat
  block : Nat
  bits : Nat
  deriving DecidableEq, Repr

/-- The number of some bytes at a position. -/
def numberAt (bytes : List UInt8) (position count : Nat) : Nat :=
  number ((bytes.drop position).take count)

/-- The encoding of plain samples. -/
def plainEncoding : Nat := 1

/-- The encoding that is named further on. -/
def extendedEncoding : Nat := 0xfffe

/-- The size of a format chunk without what may follow. -/
def formatSize : Nat := 16

/-- Reads a format from the bytes of its chunk. An extended one names its encoding among further
bytes. -/
def Format.read (body : List UInt8) : Format where
  encoding :=
    let encoding := numberAt body 0 2
    if encoding == extendedEncoding then numberAt body 24 2 else encoding
  channels := numberAt body 2 2
  rate := numberAt body 4 4
  block := numberAt body 12 2
  bits := numberAt body 14 2

/-- Whether a format is one that files have. -/
def Format.isSound (f : Format) : Bool :=
  0 < f.rate && f.rate ≤ 384000 && 0 < f.channels && f.channels ≤ 256 &&
  0 < f.bits && f.bits ≤ 64 && 0 < f.block

/-- The bytes of one sample of every channel. The bits count if they make whole bytes. -/
def Format.width (f : Format) : Nat := if f.bits % 8 = 0 then f.bits * f.channels / 8 else f.block

/-- What a file holds: its format, and the bytes of its samples. -/
structure Recording where
  format : Format
  bytes : List UInt8

/-- The size of a chunk that goes on to the end of the file. -/
def openSize : Nat := 0xffffffff

/-- The bytes in a chunk of a size, as far as they are there, in whole blocks. -/
def blocks (f : Format) (size : Nat) (bytes : List UInt8) : List UInt8 :=
  let size := if size = openSize then bytes.length else size
  bytes.take (size - size % f.block)

/-- Looks through the chunks of a file for the format and then the samples. A chunk begins with its
tag and its size, and a byte is left free behind one of odd size. Every chunk takes up bytes, so the
number of bytes bounds the chunks. -/
def chunks : Nat → Option Format → List UInt8 → Option Recording
  | 0, _, _ => none
  | bound + 1, format, bytes =>
    if bytes.length < 8 then none
    else
      let size := numberAt bytes 4 4
      let body := bytes.drop 8
      if bytes.take 4 == tag "fmt " then
        if body.length < formatSize then none
        else
          chunks bound (some (.read (body.take (max size formatSize))))
            (body.drop (max size formatSize + size % 2))
      else if bytes.take 4 == tag "data" then
        format.bind fun f => if f.isSound then some ⟨f, blocks f size body⟩ else none
      else chunks bound format (body.drop (size + size % 2))

/-- What a file holds. -/
def read (bytes : List UInt8) : Option Recording :=
  if bytes.take 4 == tag "RIFF" && (bytes.drop 8).take 4 == tag "WAVE" then
    chunks bytes.length none (bytes.drop 12)
  else none

/-- Samples of so many bytes each as 16-bit samples. Of wider ones the two highest bytes count;
single bytes have no sign. -/
def samplesOf (width : Nat) (bytes : List UInt8) : List Int :=
  if width = 2 then samples bytes
  else if width = 1 then bytes.map fun b => 256 * ((b.toNat : Int) - 128)
  else
    let whole := bytes.take (bytes.length - bytes.length % width)
    samples ((whole.zipIdx.filter fun b => width ≤ b.2 % width + 2).map (·.1))

/-- The samples of a recording of one channel at a rate. -/
def Recording.samples? (r : Recording) (rate : Int) : Option (List Int) :=
  let f := r.format
  if f.encoding = plainEncoding ∧ f.channels = 1 ∧ f.rate = rate then
    some (samplesOf f.width r.bytes)
  else none

/-- The bytes of a number, the lowest first, so many of them. -/
def bytesOf : Nat → Nat → List UInt8
  | 0, _ => []
  | count + 1, n => n.toUInt8 :: bytesOf count (n / 256)

/-- The 16-bit sample nearest to a value, of two equally near ones the even one. Full scale is 1,
and what lies beyond it is cut off. -/
def quantize (x : Float) : Int :=
  let y := x * 32768
  if y.isNaN then 0
  else
    let floor := y.floor
    let n := (Number.truncate? floor).getD 0
    let up := if y - floor < 0.5 then 0 else if y - floor > 0.5 then 1 else n % 2
    max (-32768) (min 32767 (n + up))

/-- A file that holds samples at a rate. -/
def write (rate : Nat) (samples : List Int) : List UInt8 :=
  let data := samples.flatMap fun n => bytesOf 2 (n % 65536).toNat
  let format := bytesOf 2 1 ++ bytesOf 2 1 ++ bytesOf 4 rate ++ bytesOf 4 (2 * rate) ++
    bytesOf 2 2 ++ bytesOf 2 16
  tag "RIFF" ++ bytesOf 4 (36 + data.length) ++ tag "WAVE" ++ tag "fmt " ++
    bytesOf 4 format.length ++ format ++ tag "data" ++ bytesOf 4 data.length ++ data

/-- The samples of an audio file at a rate. -/
def load {N : Type} (rate : Int) (file : Storage.Found N) : Except Fault (List Int) :=
  match file.content with
  | none => .error (.missingAudio file.path)
  | some (.bytes bytes) =>
    match (read bytes.toList).bind (·.samples? rate) with
    | some found => .ok found
    | none => .error (.noAudio file.path)
  | some _ => .error (.noAudio file.path)

/-- The number of samples in a piece of some seconds. -/
def pieceLength (seconds : Float) (rate : Int) : Except Fault Int :=
  let length := seconds * Float.ofInt rate
  match Number.truncate? length with
  | some n => .ok n
  | none => .error (if length.isNaN then .secondsUndefined else .secondsInfinite)

/-- A signal in pieces of a positive length; the last one may be shorter. The number of samples
bounds the pieces. -/
def cut {α : Type} (length : Nat) : Nat → List α → List (List α)
  | 0, _ => []
  | _, [] => []
  | bound + 1, signal => signal.take length :: cut length bound (signal.drop length)

/-- The pieces of a signal. There are none of a negative length. -/
def pieces {α : Type} (seconds : Float) (rate : Int) (signal : List α) :
    Except Fault (List (List α)) := do
  let length ← pieceLength seconds rate
  if length = 0 then throw .zeroStep
  return if length < 0 then [] else cut length.toNat signal.length signal

end SpeechTransducer.Audio.Wave
