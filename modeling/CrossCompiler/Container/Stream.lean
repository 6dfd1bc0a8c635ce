import CrossCompiler.Bytes

/-!
# Container output

The two outputs of a container come interleaved as frames: a header of eight bytes, which
names the output and gives the length of what follows, and the data.  A frame that is cut
off at the end is dropped.  A frame of an unknown output ends the reading with an error,
but what came before it is kept.
-/

namespace CrossCompiler
namespace Container

/-- A frame as it is sent. -/
def frame (stream : Nat) (data : Bytes) : Bytes :=
  let n := data.length
  [UInt8.ofNat stream, 0, 0, 0, UInt8.ofNat (n / 16777216), UInt8.ofNat (n / 65536),
    UInt8.ofNat (n / 256), UInt8.ofNat n] ++ data

/-- The two outputs, and what ended the reading early. -/
structure Output where
  stdout : Bytes
  stderr : Bytes
  problem : Option Bytes
  deriving DecidableEq

/-- Sorts the frames of a stream by output.  `fuel` bounds the number of frames by the
length of the stream. -/
def demultiplexFrom : (fuel : Nat) → Bytes → Output
  | 0, _ => ⟨[], [], none⟩
  | fuel + 1, stream :: _ :: _ :: _ :: a :: b :: c :: d :: rest =>
    let size := a.toNat * 16777216 + b.toNat * 65536 + c.toNat * 256 + d.toNat
    if 3 < stream.toNat then
      ⟨[], [], some (text "Unrecognized input header: " ++ Bytes.digits stream.toNat)⟩
    else if rest.length < size then ⟨[], [], none⟩
    else
      let data := rest.take size
      if stream = 3 then ⟨[], [], some (text "error from daemon in stream: " ++ data)⟩
      else
        let after := demultiplexFrom fuel (rest.drop size)
        if stream = 2 then ⟨after.stdout, data ++ after.stderr, after.problem⟩
        else ⟨data ++ after.stdout, after.stderr, after.problem⟩
  | _, _ => ⟨[], [], none⟩

/-- Sorts the frames of a stream by output. -/
def demultiplex (stream : Bytes) : Output := demultiplexFrom stream.length stream

end Container
end CrossCompiler
