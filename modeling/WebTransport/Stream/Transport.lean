import WebTransport.Theory.Loop

/-! A quiche stream as its reader sees it: readable regions in stream order and the FIN
behind them. How arriving bytes are laid out in regions is up to the transport. -/
namespace WebTransport.Stream

structure Region where
  bytes : List UInt8
  nonempty : bytes ≠ []
  deriving DecidableEq, Repr

def bytesOf (regions : List Region) : List UInt8 :=
  regions.flatMap Region.bytes

@[simp] theorem bytesOf_nil : bytesOf [] = [] := rfl

@[simp] theorem bytesOf_cons (r : Region) (rest : List Region) :
    bytesOf (r :: rest) = r.bytes ++ bytesOf rest := rfl

@[simp] theorem bytesOf_append (first second : List Region) :
    bytesOf (first ++ second) = bytesOf first ++ bytesOf second := List.flatMap_append

theorem Region.length_pos (r : Region) : 0 < r.bytes.length :=
  List.length_pos_iff.mpr r.nonempty

@[simp] theorem bytesOf_eq_nil {regions : List Region} : bytesOf regions = [] ↔ regions = [] := by
  cases regions with
  | nil => simp
  | cons r rest => simp [r.nonempty]

/-- `fin` holds from the arrival of the FIN until it is consumed. -/
structure WebTransportStream where
  regions : List Region := []
  fin : Bool := false
  deriving DecidableEq, Repr

structure PeekResult where
  peekedData : List UInt8
  finNext : Bool
  deriving DecidableEq, Repr

namespace WebTransportStream

def bytes (s : WebTransportStream) : List UInt8 := bytesOf s.regions

def readableBytes (s : WebTransportStream) : Nat := s.bytes.length

def arrive (s : WebTransportStream) (regions : List Region) (fin : Bool) : WebTransportStream :=
  ⟨s.regions ++ regions, s.fin || fin⟩

def peekNextReadableRegion (s : WebTransportStream) : PeekResult :=
  match s.regions with
  | [] => ⟨[], s.fin⟩
  | r :: rest => ⟨r.bytes, s.fin && rest.isEmpty⟩

def skip : Nat → List Region → List Region
  | _, [] => []
  | n, r :: rest =>
    if h : n < r.bytes.length then
      ⟨r.bytes.drop n, by simpa using h⟩ :: rest
    else skip (n - r.bytes.length) rest

/-- True when everything is consumed, the FIN included. -/
def skipBytes (s : WebTransportStream) (n : Nat) : Bool × WebTransportStream :=
  let regions := skip n s.regions
  (s.fin && regions.isEmpty, ⟨regions, s.fin && !regions.isEmpty⟩)

/-- `Read` into an empty string: everything readable, and the FIN if it is there. -/
def read (s : WebTransportStream) : List UInt8 × WebTransportStream :=
  (s.bytes, ⟨[], false⟩)

@[simp] theorem arrive_bytes (s : WebTransportStream) (regions : List Region) (fin : Bool) :
    (s.arrive regions fin).bytes = s.bytes ++ bytesOf regions := bytesOf_append _ _

theorem skip_first (r : Region) (rest : List Region) : skip r.bytes.length (r :: rest) = rest := by
  cases rest with
  | nil => simp [skip]
  | cons next rest => simp [skip, next.length_pos]

end WebTransportStream

end WebTransport.Stream
